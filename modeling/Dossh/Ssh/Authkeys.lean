import Dossh.Lib.Lines
import Dossh.Ssh.Auth

/-!
# The file of authorized keys

`ssh_load_authkeys` reads `AUTHKEYS` through a buffer of 300 bytes and gives every piece to
`ssh_parse_authkey_line`.  What it stores are the keys of the pieces.  They are the keys of the
lines as long as a line gives in pieces what it gives as a whole.

The text of the file is what the stream delivers, with one newline at the end of a line.  A C
string is a list of bytes here, and behind its end stands zero.
-/

namespace Dossh

open Ssh

/-! ## Base64 -/

/-- `b64val`. -/
def b64val (ch : UInt8) : Option Nat :=
  if 65 ≤ ch ∧ ch ≤ 90 then some (ch.toNat - 65)
  else if 97 ≤ ch ∧ ch ≤ 122 then some (ch.toNat - 97 + 26)
  else if 48 ≤ ch ∧ ch ≤ 57 then some (ch.toNat - 48 + 52)
  else if ch = 43 then some 62
  else if ch = 47 then some 63
  else none

/-- The loop of `b64_decode`, when `o` bytes are decoded.  `none` is the result 0. -/
def b64Loop (outmax : Nat) : Nat → List UInt8 → Option (List UInt8)
  | _, [] => some []
  | _, [_] => none
  | o, [x₀, x₁] => do
      let c₀ ← b64val x₀
      let c₁ ← b64val x₁
      if o ≥ outmax then none
      some [UInt8.ofNat (c₀ * 4 + c₁ / 16)]
  | o, [x₀, x₁, x₂] => do
      let c₀ ← b64val x₀
      let c₁ ← b64val x₁
      if o ≥ outmax then none
      let c₂ ← b64val x₂
      if o + 1 ≥ outmax then none
      some [UInt8.ofNat (c₀ * 4 + c₁ / 16), UInt8.ofNat (c₁ * 16 + c₂ / 4)]
  | o, x₀ :: x₁ :: x₂ :: x₃ :: l => do
      let c₀ ← b64val x₀
      let c₁ ← b64val x₁
      if o ≥ outmax then none
      let c₂ ← b64val x₂
      if o + 1 ≥ outmax then none
      let c₃ ← b64val x₃
      if o + 2 ≥ outmax then none
      let out ← b64Loop outmax (o + 3) l
      some (UInt8.ofNat (c₀ * 4 + c₁ / 16) :: UInt8.ofNat (c₁ * 16 + c₂ / 4) ::
        UInt8.ofNat (c₂ * 64 + c₃) :: out)

/-- `b64_decode`: the bytes decoded, none of them for malformed input. -/
def b64Decode (l : List UInt8) (outmax : Nat) : List UInt8 :=
  -- trailing padding is dropped from the view
  let l := (l.reverse.dropWhile (· = 61)).reverse
  (b64Loop outmax 0 l).getD []

/-! ## Lines -/

def isBlank (ch : UInt8) : Bool := ch = 32 || ch = 9

/-- `strlen`. -/
def strlen (p : List UInt8) : Nat := (p.takeWhile (· ≠ 0)).length

/-- `ssh_parse_authkey_line`. -/
def sshParseAuthkeyLine (line : List UInt8) : Option (List UInt8) :=
  let p := line.dropWhile isBlank
  let ch := p.headD 0
  if ch = 0 ∨ ch = 35 ∨ ch = 13 ∨ ch = 10 then none
  else if strlen p < 11 ∨ p.take 11 ≠ ascii "ssh-ed25519" then none
  else
    let p := p.drop 11
    if !isBlank (p.headD 0) then none
    else
      let p := p.dropWhile isBlank
      let b64 := p.takeWhile fun ch => (b64val ch).isSome || ch = 61
      let blob := b64Decode b64 80
      (ed25519KeyFromBlob (Payload.ofBytes blob)).map Payload.bytes

/-! ## The file -/

def SSH_MAX_AUTHKEYS : Nat := 8

/-- `fgets` with a buffer of `size` bytes: what it reads, and what is left of the file. -/
def fgets (size : Nat) (f : List UInt8) : Option (List UInt8 × List UInt8) :=
  if f = [] then none else some (Lines.cut 10 (size - 1) f)

/-- The loop of `ssh_load_authkeys`.  Every `fgets` takes a byte, so the length of the file is
fuel enough. -/
def loadLoop : Nat → List UInt8 → List (List UInt8) → List (List UInt8)
  | 0, _, keys => keys
  | fuel + 1, f, keys =>
      if keys.length < SSH_MAX_AUTHKEYS then
        match fgets 300 f with
        | none => keys
        | some (line, f) =>
            match sshParseAuthkeyLine line with
            | none => loadLoop fuel f keys
            | some key => loadLoop fuel f (keys ++ [key])
      else keys

/-- `ssh_load_authkeys`: the keys in `g_authkeys`. -/
def sshLoadAuthkeys (file : Option (List UInt8)) : List (List UInt8) :=
  match file with
  | none => []
  | some f => loadLoop f.length f []

/-! ## Pieces and lines -/

/-- The lines of a file. -/
def fileLines (f : List UInt8) : List (List UInt8) := Lines.lines 10 f

/-- The keys that are found in a text that is read in pieces. -/
def keysInPieces (f : List UInt8) : List (List UInt8) :=
  (Lines.pieces 10 298 f).filterMap sshParseAuthkeyLine

/-- The keys of the first lines that parse. -/
def firstKeys (ls : List (List UInt8)) : List (List UInt8) :=
  (ls.filterMap sshParseAuthkeyLine).take SSH_MAX_AUTHKEYS

/-- Cut into pieces, the line gives the keys that it gives as a whole, as far as `room` keys are
still to be stored. -/
def GivesAsWhole (room : Nat) (line : List UInt8) : Prop :=
  (keysInPieces line).take room = (sshParseAuthkeyLine line).toList

theorem loadLoop_eq : ∀ (fuel : Nat) (f : List UInt8) (keys : List (List UInt8)),
    f.length ≤ fuel → keys.length ≤ SSH_MAX_AUTHKEYS →
    loadLoop fuel f keys = (keys ++ keysInPieces f).take SSH_MAX_AUTHKEYS
  | 0, f, keys, hf, hkeys => by
      rw [List.length_eq_zero_iff.mp (Nat.le_zero.mp hf), keysInPieces, Lines.pieces_nil,
        List.filterMap_nil, List.append_nil, List.take_of_length_le hkeys, loadLoop]
  | fuel + 1, f, keys, hf, hkeys => by
      rw [loadLoop]
      split
      next hroom =>
        by_cases hnil : f = []
        · rw [fgets, if_pos hnil, hnil, keysInPieces, Lines.pieces_nil, List.filterMap_nil,
            List.append_nil, List.take_of_length_le hkeys]
        · have hlen : (Lines.cut 10 299 f).2.length ≤ fuel := by
            have hlt : (Lines.cut 10 299 f).2.length < f.length := Lines.length_cut_lt 10 298 hnil
            omega
          have hpieces : keysInPieces f = (sshParseAuthkeyLine (Lines.cut 10 299 f).1).toList ++
              keysInPieces (Lines.cut 10 299 f).2 := by
            rw [keysInPieces, Lines.pieces_cons 298 hnil, List.filterMap_cons]
            cases sshParseAuthkeyLine (Lines.cut 10 299 f).1 <;> rfl
          rw [fgets, if_neg hnil, hpieces]
          dsimp only
          cases sshParseAuthkeyLine (Lines.cut 10 299 f).1 with
          | none => exact loadLoop_eq fuel _ keys hlen hkeys
          | some key =>
              dsimp only
              rw [loadLoop_eq fuel _ (keys ++ [key]) hlen
                (by rw [List.length_append]; exact hroom), List.append_assoc]
              rfl
      next hfull =>
        have hlen : keys.length = SSH_MAX_AUTHKEYS := Nat.le_antisymm hkeys (Nat.not_lt.mp hfull)
        rw [← hlen, List.take_left']
        rfl

/-- What is stored are the keys of the pieces. -/
theorem sshLoadAuthkeys_eq (f : List UInt8) :
    sshLoadAuthkeys (some f) = (keysInPieces f).take SSH_MAX_AUTHKEYS :=
  loadLoop_eq f.length f [] (Nat.le_refl _) (Nat.zero_le _)

/-- The keys of the first lines of a file, line by line. -/
theorem keysInPieces_flatten {f : List UInt8} {ls : List (List UInt8)} (h : ls <+: fileLines f) :
    keysInPieces ls.flatten = ls.flatMap keysInPieces := by
  rw [keysInPieces, Lines.pieces_first 298 h, List.filterMap_flatMap]
  rfl

theorem flatten_fileLines (f : List UInt8) : (fileLines f).flatten = f :=
  (Lines.lines_spec 10 f).1

/-- A line that fits into the buffer. -/
theorem GivesAsWhole.short {f line : List UInt8} (hline : line ∈ fileLines f)
    (hlen : line.length ≤ 299) {room : Nat} (hroom : 0 < room) : GivesAsWhole room line := by
  obtain ⟨xs, ys, hsplit⟩ := List.append_of_mem hline
  have hpieces : Lines.pieces 10 298 line = [line] :=
    Lines.pieces_short ((Lines.lines_spec 10 f).2 xs line ys hsplit) hlen
  have hkeys : keysInPieces line = (sshParseAuthkeyLine line).toList := by
    rw [keysInPieces, hpieces, List.filterMap_cons]
    cases sshParseAuthkeyLine line <;> rfl
  rw [GivesAsWhole, hkeys, List.take_of_length_le]
  refine Nat.le_trans ?_ hroom
  cases sshParseAuthkeyLine line with
  | none => exact Nat.zero_le 1
  | some key => exact Nat.le_refl 1

/-! ## Loading -/

/-- Every line that is read while there is room gives in pieces what it gives as a whole. -/
def ReadsWhole (f : List UInt8) : Prop :=
  ∀ ls line, ls ++ [line] <+: fileLines f → (firstKeys ls).length < SSH_MAX_AUTHKEYS →
    GivesAsWhole (SSH_MAX_AUTHKEYS - (firstKeys ls).length) line

section

variable {f : List UInt8} {ls : List (List UInt8)} {line : List UInt8}

/-- What is stored from the first lines, with one line more. -/
theorem load_snoc (h : ls ++ [line] <+: fileLines f) :
    sshLoadAuthkeys (some ls.flatten) = (ls.flatMap keysInPieces).take SSH_MAX_AUTHKEYS ∧
    sshLoadAuthkeys (some (ls ++ [line]).flatten) =
      (ls.flatMap keysInPieces ++ keysInPieces line).take SSH_MAX_AUTHKEYS := by
  have hls : ls <+: fileLines f := (List.prefix_append ls [line]).trans h
  rw [sshLoadAuthkeys_eq, sshLoadAuthkeys_eq, keysInPieces_flatten hls, keysInPieces_flatten h,
    List.flatMap_append, List.flatMap_singleton]
  exact ⟨rfl, rfl⟩

theorem firstKeys_snoc (ls : List (List UInt8)) (line : List UInt8) : firstKeys (ls ++ [line]) =
    (ls.filterMap sshParseAuthkeyLine ++ (sshParseAuthkeyLine line).toList).take
      SSH_MAX_AUTHKEYS := by
  rw [firstKeys, List.filterMap_append]
  cases hkey : sshParseAuthkeyLine line <;> simp [hkey]

/-- While there is room the next line decides. -/
theorem load_line (h : ls ++ [line] <+: fileLines f)
    (hls : sshLoadAuthkeys (some ls.flatten) = firstKeys ls)
    (hroom : (firstKeys ls).length < SSH_MAX_AUTHKEYS) :
    sshLoadAuthkeys (some (ls ++ [line]).flatten) = firstKeys (ls ++ [line]) ↔
      GivesAsWhole (SSH_MAX_AUTHKEYS - (firstKeys ls).length) line := by
  obtain ⟨hold, hnew⟩ := load_snoc h
  rw [hold] at hls
  rw [hnew, firstKeys_snoc, GivesAsWhole]
  have hone : (sshParseAuthkeyLine line).toList.length ≤ 1 := by
    cases sshParseAuthkeyLine line with
    | none => exact Nat.zero_le 1
    | some key => exact Nat.le_refl 1
  rw [← hls, List.length_take] at hroom
  have hstored : ls.flatMap keysInPieces = firstKeys ls := by
    rw [← hls, List.take_of_length_le (by omega)]
  have hwanted : firstKeys ls = ls.filterMap sshParseAuthkeyLine := by
    have hlen := congrArg List.length hls
    rw [firstKeys, List.length_take, List.length_take] at hlen
    exact List.take_of_length_le (by omega)
  rw [hstored] at hroom
  rw [hstored, ← hwanted, List.take_append, List.take_append, List.take_of_length_le (by omega),
    List.append_cancel_left_eq, List.take_of_length_le (l := (sshParseAuthkeyLine line).toList)
      (by omega)]

/-- With eight keys nothing more is stored. -/
theorem load_full (h : ls ++ [line] <+: fileLines f)
    (hls : sshLoadAuthkeys (some ls.flatten) = firstKeys ls)
    (hfull : SSH_MAX_AUTHKEYS ≤ (firstKeys ls).length) :
    sshLoadAuthkeys (some (ls ++ [line]).flatten) = firstKeys (ls ++ [line]) := by
  obtain ⟨hold, hnew⟩ := load_snoc h
  rw [hold] at hls
  have hwanted := hfull
  rw [firstKeys, List.length_take] at hwanted
  rw [← hls, List.length_take] at hfull
  rw [hnew, firstKeys_snoc, List.take_append_of_le_length (by omega), hls,
    List.take_append_of_le_length (by omega)]
  rfl

/-- Lines that fit into the buffer are read as wholes. -/
theorem ReadsWhole.of_short (h : ∀ line ∈ fileLines f, line.length ≤ 299) : ReadsWhole f := by
  intro ls line hpre hroom
  have hline : line ∈ fileLines f := hpre.subset (List.mem_append_right ls List.mem_cons_self)
  exact GivesAsWhole.short hline (h line hline) (Nat.sub_pos_of_lt hroom)

/-- The keys that are stored are those of the first lines that parse, for the file and for all its
first lines, exactly if the lines are read as wholes. -/
theorem load_exact_iff (f : List UInt8) :
    (ReadsWhole f → sshLoadAuthkeys (some f) = firstKeys (fileLines f)) ∧
    ((∀ ls, ls <+: fileLines f → sshLoadAuthkeys (some ls.flatten) = firstKeys ls) ↔
      ReadsWhole f) := by
  have hexact : (∀ ls, ls <+: fileLines f → sshLoadAuthkeys (some ls.flatten) = firstKeys ls) ↔
      ReadsWhole f := by
    constructor
    · intro hall ls line h hroom
      have hls : ls <+: fileLines f := (List.prefix_append ls [line]).trans h
      exact (load_line h (hall ls hls) hroom).mp (hall _ h)
    · intro hreads ls
      induction ls using List.reverseRecOn with
      | nil => exact fun _ => rfl
      | append_singleton ls line ih =>
          intro h
          have hls := ih ((List.prefix_append ls [line]).trans h)
          rcases Nat.lt_or_ge (firstKeys ls).length SSH_MAX_AUTHKEYS with hroom | hfull
          · exact (load_line h hls hroom).mpr (hreads ls line h hroom)
          · exact load_full h hls hfull
  refine ⟨fun hreads => ?_, hexact⟩
  have hfile := hexact.mpr hreads (fileLines f) (List.prefix_refl _)
  rw [flatten_fileLines] at hfile
  exact hfile

end

/-- The line of a key, all zero. -/
def keyLine : List UInt8 :=
  ascii "ssh-ed25519 AAAAC3NzaC1lZDI1NTE5AAAAI" ++ List.replicate 43 65 ++ [10]

theorem load_exact_iff_comment :
    sshLoadAuthkeys (some (ascii "# one key\n" ++ keyLine)) = [List.replicate 32 0] := by
  have hshort : ∀ line ∈ fileLines (ascii "# one key\n" ++ keyLine), line.length ≤ 299 :=
    forall_mem_of_all (by decide +kernel)
  have hkeys : firstKeys (fileLines (ascii "# one key\n" ++ keyLine)) = [List.replicate 32 0] := by
    decide +kernel
  exact ((load_exact_iff _).1 (.of_short hshort)).trans hkeys

/-- A comment of 299 characters, and a key behind it. -/
def revokedKey : List UInt8 := 35 :: List.replicate 298 120 ++ keyLine

/-- The key behind the comment is authorized. -/
theorem comment_authorizes : fileLines revokedKey = [revokedKey] ∧
    sshParseAuthkeyLine revokedKey = none ∧
    sshLoadAuthkeys (some revokedKey) = [List.replicate 32 0] := by
  decide +kernel

end Dossh
