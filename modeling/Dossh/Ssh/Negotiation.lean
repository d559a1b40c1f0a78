import Dossh.Ssh.RoundTrip
import Dossh.Ssh.Run

/-!
# The negotiation of algorithms

What RFC 4253 asks of the two `KEXINIT` messages, and what `negotiate` does.  The server looks
for its names in four lists of the client and never at those of the compression, so it goes on
with a client that insists on compressing.  And it takes a guess of
`curve25519-sha256@libssh.org` for a right one, although its own first choice is
`curve25519-sha256`.  With every other client the two agree.
-/

namespace Dossh

open Ssh

/-! ## Messages -/

/-- The names of a name list. -/
def names (list : List UInt8) : List (List UInt8) := list.splitOn 0x2C

/-- The fields of a `KEXINIT`, with the name lists as they are sent. -/
structure KexinitFields where
  cookie : List UInt8
  kex : List UInt8
  hostKey : List UInt8
  encC2s : List UInt8
  encS2c : List UInt8
  macC2s : List UInt8
  macS2c : List UInt8
  compC2s : List UInt8
  compS2c : List UInt8
  langC2s : List UInt8
  langS2c : List UInt8
  follows : UInt8
  reserved : List UInt8
deriving DecidableEq, Repr

namespace KexinitFields

/-- The ten name lists. -/
def lists (m : KexinitFields) : List (List UInt8) :=
  [m.kex, m.hostKey, m.encC2s, m.encS2c, m.macC2s, m.macS2c, m.compC2s, m.compS2c, m.langC2s,
    m.langS2c]

/-- The payload. -/
def encode (m : KexinitFields) : List UInt8 :=
  [MSG_KEXINIT] ++ m.cookie ++ m.lists.flatMap putStr ++ [m.follows] ++ m.reserved

end KexinitFields

/-- A well-formed message of a client, which fits into the buffer of the server. -/
structure ClientKexinit extends KexinitFields where
  cookie_length : cookie.length = 16
  reserved_length : reserved.length = 4
  fits : toKexinitFields.encode.length ≤ SSH_IB_SZ

/-- The fields of `build_our_kexinit`. -/
def serverKexinit (cookie : List UInt8) : KexinitFields where
  cookie := cookie
  kex := ascii "curve25519-sha256,curve25519-sha256@libssh.org"
  hostKey := ascii "ssh-ed25519"
  encC2s := ascii "chacha20-poly1305@openssh.com"
  encS2c := ascii "chacha20-poly1305@openssh.com"
  macC2s := ascii "none"
  macS2c := ascii "none"
  compC2s := ascii "none"
  compS2c := ascii "none"
  langC2s := ascii ""
  langS2c := ascii ""
  follows := 0
  reserved := [0, 0, 0, 0]

theorem ourKexinit_eq (cookie : List UInt8) : ourKexinit cookie = (serverKexinit cookie).encode := by
  simp [ourKexinit, KexinitFields.encode, serverKexinit, KexinitFields.lists, putNl]

/-! ## What the protocol asks for -/

/-- The two lists have a name in common. -/
def Shares (client server : List UInt8) : Prop := ∃ name ∈ names client, name ∈ names server

instance (client server : List UInt8) : Decidable (Shares client server) :=
  inferInstanceAs (Decidable (∃ name ∈ names client, name ∈ names server))

/-- Key exchange, host key and ciphers, which `negotiate` looks at. -/
def SharesCiphers (client server : KexinitFields) : Prop :=
  Shares client.kex server.kex ∧ Shares client.hostKey server.hostKey ∧
    Shares client.encC2s server.encC2s ∧ Shares client.encS2c server.encS2c

/-- Compression in both directions. -/
def SharesCompression (client server : KexinitFields) : Prop :=
  Shares client.compC2s server.compC2s ∧ Shares client.compS2c server.compS2c

instance (client server : KexinitFields) : Decidable (SharesCompression client server) :=
  inferInstanceAs (Decidable (_ ∧ _))

/-- The client has sent a packet on a guess, and its first choices are not those of the
server. -/
def GuessedWrong (client server : KexinitFields) : Prop :=
  client.follows ≠ 0 ∧ ((names client.kex).head? ≠ (names server.kex).head? ∨
    (names client.hostKey).head? ≠ (names server.hostKey).head?)

instance (client server : KexinitFields) : Decidable (GuessedWrong client server) :=
  inferInstanceAs (Decidable (_ ∧ _))

/-- The result of `negotiate` is that of RFC 4253: an algorithm for everything, and the guessed
packet ignored if the guess was wrong. -/
structure NegotiatesRight (client server : KexinitFields) (r : NegRes × Ssh) : Prop where
  accepted : r.1 = .ok ↔ SharesCiphers client server ∧ SharesCompression client server
  ignored : r.1 = .ok → (r.2.c.discardNext = true ↔ GuessedWrong client server)

/-! ## Name lists -/

theorem names_cons (b : UInt8) (list : List UInt8) :
    names (b :: list) =
      if b = 0x2C then [] :: names list else (names list).modifyHead (b :: ·) := by
  rw [names, List.splitOn_cons_eq_if_modifyHead]
  simp [names]

theorem modifyHead_nil_append (l : List (List UInt8)) : l.modifyHead ([] ++ ·) = l := by
  cases l <;> rfl

/-- `nl_has` finds the names of the list, the part of the current name in front. -/
theorem nlScan_names (list : Nat → UInt8) (name : List UInt8) : ∀ rem i start : Nat, start ≤ i →
    ((nlScan list name rem i start).1 = true ↔
      name ∈ (names (slice list i rem)).modifyHead (slice list start (i - start) ++ ·))
  | 0, i, start, _ => by
      simp [nlScan, names, slice, eq_comm]
  | rem + 1, i, start, hi => by
      rw [nlScan, slice_succ, names_cons]
      split
      next hcomma =>
        have hrest := nlScan_names list name rem (i + 1) (i + 1) (Nat.le_refl _)
        have hnil : slice list (i + 1) (i + 1 - (i + 1)) = [] := by
          rw [Nat.sub_self]
          rfl
        rw [hnil, modifyHead_nil_append] at hrest
        simp only [List.modifyHead_cons, List.append_nil, List.mem_cons]
        split
        next hname => simp [hname]
        next hname => rw [hrest, or_iff_right fun h => hname h.symm]
      next hplain =>
        have hcur : slice list start (i + 1 - start) = slice list start (i - start) ++ [list i] := by
          rw [(by omega : i + 1 - start = (i - start) + 1), slice_add]
          congr 1
          rw [(by omega : start + (i - start) = i)]
          rfl
        rw [nlScan_names list name rem (i + 1) start (by omega), hcur, List.modifyHead_modifyHead]
        simp [Function.comp_def]

theorem nlHas_iff (l : Payload) (name : String) :
    l.nlHas name = true ↔ ascii name ∈ names l.bytes := by
  have hscan := nlScan_names l.get (ascii name) l.len 0 0 (Nat.le_refl 0)
  have hslice : slice l.get 0 l.len = l.bytes := by
    simp [slice, Payload.get, Payload.bytes]
  rw [hslice, show slice l.get 0 (0 - 0) = [] from rfl, modifyHead_nil_append] at hscan
  exact hscan

/-- `nl_first` finds the first of them. -/
theorem nlFirstLen_eq (list : Nat → UInt8) : ∀ rem i : Nat,
    nlFirstLen list rem i = i + ((slice list i rem).takeWhile (· ≠ 0x2C)).length
  | 0, i => by simp [nlFirstLen, slice]
  | rem + 1, i => by
      rw [nlFirstLen, slice_succ]
      split
      next hcomma => simp [hcomma]
      next hplain =>
        rw [nlFirstLen_eq list rem (i + 1)]
        simp [hplain]
        omega

theorem head_names : ∀ list : List UInt8,
    (names list).head? = some (list.takeWhile (· ≠ 0x2C))
  | [] => rfl
  | b :: list => by
      have ih := head_names list
      rw [names_cons]
      split
      next hcomma => simp [hcomma]
      next hplain => simp [hplain, List.head?_modifyHead, ih]

theorem nlFirst_bytes (l : Payload) : (names l.bytes).head? = some l.nlFirst.bytes := by
  have hslice : slice l.get 0 l.len = l.bytes := by
    simp [slice, Payload.get, Payload.bytes]
  have hlen := nlFirstLen_eq l.get l.len 0
  rw [hslice, Nat.zero_add] at hlen
  rw [head_names]
  generalize hfirst : l.bytes.takeWhile (· ≠ 0x2C) = first at hlen ⊢
  have hfront : first <+: l.bytes := by
    rw [← hfirst]
    exact List.takeWhile_prefix _
  have hle : first.length ≤ l.len := by
    have hle := hfront.length_le
    rw [Payload.bytes, length_slice] at hle
    exact hle
  have hsplit : l.bytes = l.nlFirst.bytes ++ slice l.mem (l.base + first.length)
      (l.len - first.length) := by
    rw [Payload.bytes, Payload.nlFirst, hlen, Payload.sub, Payload.bytes]
    dsimp only
    rw [Nat.add_zero, ← slice_add, Nat.add_sub_of_le hle]
  rw [hsplit] at hfront
  rw [List.prefix_iff_eq_take.mp hfront, List.take_left']
  rw [Payload.nlFirst, Payload.sub, Payload.bytes, length_slice, hlen]

theorem tokEq_iff (l : Payload) (name : String) :
    l.nlFirst.tokEq name = true ↔ (names l.bytes).head? = some (ascii name) := by
  rw [nlFirst_bytes, Payload.tokEq, decide_eq_true_eq, Option.some.injEq]

/-! ## The ten lists -/

/-- Reading a word of a payload that was put there. -/
theorem Payload.u32_be32 {pl : Payload} {o n : Nat} {rest : List UInt8} (hn : n < 4294967296)
    (h : pl.bytes.drop o = be32 n ++ rest) : pl.u32 o = n := by
  have hlen : 4 ≤ pl.len - o := by
    have hl := congrArg List.length h
    rw [List.length_drop, Payload.bytes, length_slice, List.length_append, length_be32] at hl
    omega
  rw [Payload.bytes, drop_slice] at h
  have hword : slice pl.mem (pl.base + o) 4 = be32 n := by
    rw [(by omega : pl.len - o = 4 + (pl.len - o - 4)), slice_add] at h
    exact (List.append_inj h (by rw [length_slice, length_be32])).1
  have hread := rd32_be32 hn (fun k => pl.mem (pl.base + o + k)) (by simpa [slice] using hword)
  exact hread

/-- A part of a payload. -/
theorem Payload.sub_bytes {pl : Payload} {o : Nat} {part rest : List UInt8}
    (h : pl.bytes.drop o = part ++ rest) : (pl.sub o part.length).bytes = part := by
  have hlen : part.length ≤ pl.len - o := by
    have hl := congrArg List.length h
    rw [List.length_drop, Payload.bytes, length_slice, List.length_append] at hl
    omega
  rw [Payload.bytes, drop_slice, (by omega : pl.len - o = part.length + (pl.len - o - part.length)),
    slice_add] at h
  exact (List.append_inj h (length_slice _ _ _)).1

/-- The loop of `negotiate` finds the lists of a message. -/
theorem negLists_encoded (env : SshEnv) {pl : Payload} (hlen : pl.len < 65536)
    {tail : List UInt8} : ∀ (lists : List (List UInt8)) (off : Nat), off ≤ pl.len →
      pl.bytes.drop off = lists.flatMap putStr ++ tail →
      ∃ ps off', (negLists env pl lists.length off).2 = some (ps, off') ∧
        ps.map Payload.bytes = lists ∧ off' ≤ pl.len ∧ pl.bytes.drop off' = tail
  | [], off, hoff, h => ⟨[], off, rfl, rfl, hoff, h⟩
  | l :: lists, off, hoff, h => by
      have hbytes : pl.bytes.length = pl.len := by rw [Payload.bytes, length_slice]
      rw [List.flatMap_cons, putStr, List.append_assoc, List.append_assoc] at h
      have hl := congrArg List.length h
      rw [List.length_drop, hbytes, List.length_append, List.length_append, length_be32] at hl
      have hword : pl.u32 off = l.length := Payload.u32_be32 (by omega) h
      have hbody : pl.bytes.drop (off + 4) = l ++ (lists.flatMap putStr ++ tail) := by
        rw [← List.drop_drop, h, List.drop_left' (length_be32 _)]
      have hnext : pl.bytes.drop (off + 4 + l.length) = lists.flatMap putStr ++ tail := by
        rw [← List.drop_drop, hbody, List.drop_left]
      obtain ⟨ps, off', hps, hmap, hoff', htail⟩ :=
        negLists_encoded env hlen lists (off + 4 + l.length) (by omega) hnext
      refine ⟨pl.sub (off + 4) l.length :: ps, off', ?_, ?_, hoff', htail⟩
      · rw [List.length_cons, negLists]
        dsimp only
        rw [hword, env.u_small (x := off + 4) (by omega), env.u_small (x := l.length) (by omega),
          env.u_small (x := off + 4 + l.length) (by omega), if_neg (by omega), if_neg (by omega)]
        dsimp only
        rw [hps]
        rfl
      · rw [List.map_cons, hmap, Payload.sub_bytes hbody]

/-! ## The decision -/

section

variable {env : SshEnv} {s : Ssh} {pl : Payload}

/-- What `negCheck` decides. -/
theorem negCheck_spec (s : Ssh) (first : UInt8) (kex hk enc1 enc2 : Payload) :
    let r := negCheck s first kex hk enc1 enc2
    (r.1 = .ok ↔ (kex.nlHas "curve25519-sha256" = true ∨
      kex.nlHas "curve25519-sha256@libssh.org" = true) ∧ hk.nlHas "ssh-ed25519" = true ∧
      enc1.nlHas "chacha20-poly1305@openssh.com" = true ∧
      enc2.nlHas "chacha20-poly1305@openssh.com" = true) ∧
    (r.1 = .ok → (r.2.c.discardNext = true ↔ first ≠ 0 ∧
      ¬ ((kex.nlFirst.tokEq "curve25519-sha256" = true ∨
        kex.nlFirst.tokEq "curve25519-sha256@libssh.org" = true) ∧
        hk.nlFirst.tokEq "ssh-ed25519" = true))) := by
  unfold negCheck
  generalize kex.nlHas "curve25519-sha256" = kex1
  generalize kex.nlHas "curve25519-sha256@libssh.org" = kex2
  generalize hk.nlHas "ssh-ed25519" = hk1
  generalize enc1.nlHas "chacha20-poly1305@openssh.com" = c2s
  generalize enc2.nlHas "chacha20-poly1305@openssh.com" = s2c
  generalize kex.nlFirst.tokEq "curve25519-sha256" = first1
  generalize kex.nlFirst.tokEq "curve25519-sha256@libssh.org" = first2
  generalize hk.nlFirst.tokEq "ssh-ed25519" = first3
  dsimp only
  generalize (if kex1 = true then s.readNlHas kex "curve25519-sha256" else _ : Ssh) = s₁
  split
  next hkex => simp_all
  next hkex =>
    split
    next hhk => simp_all
    next hhk =>
      split
      next hc2s => simp_all
      next hc2s =>
        split
        next hs2c => simp_all
        next hs2c => cases kex1 <;> cases first1 <;> cases first2 <;> cases first3 <;> simp_all

/-- On a well-formed message `negotiate` gets as far as the lists. -/
theorem negotiate_encoded (env : SshEnv) (s : Ssh) (m : ClientKexinit) (hpl : pl.bytes = m.encode) :
    ∃ s₁ kex hk enc1 enc2, negotiate env s pl = negCheck s₁ m.follows kex hk enc1 enc2 ∧
      kex.bytes = m.kex ∧ hk.bytes = m.hostKey ∧ enc1.bytes = m.encC2s ∧ enc2.bytes = m.encS2c := by
  have hbytes : pl.bytes.length = pl.len := by rw [Payload.bytes, length_slice]
  have hfits := m.fits
  rw [← hpl, hbytes] at hfits
  have hsz : SSH_IB_SZ = 2048 := rfl
  have hfront : pl.bytes.drop 17 = m.lists.flatMap putStr ++ ([m.follows] ++ m.reserved) := by
    rw [hpl, KexinitFields.encode, List.append_assoc, List.append_assoc]
    exact List.drop_left' (by rw [List.length_append, m.cookie_length]; rfl)
  have hlong : 17 ≤ pl.len := by
    have hl := congrArg List.length hpl
    rw [hbytes, KexinitFields.encode, List.length_append, List.length_append, List.length_append,
      List.length_append, m.cookie_length] at hl
    simp only [List.length_singleton] at hl
    omega
  obtain ⟨ps, off, hps, hmap, hoff, htail⟩ :=
    negLists_encoded env (by omega) m.lists 17 hlong hfront
  have hroom : off + 1 ≤ pl.len := by
    have hl := congrArg List.length htail
    rw [List.length_drop, hbytes, List.length_append, List.length_singleton] at hl
    omega
  have hfollows : pl.get off = m.follows := by
    rw [Payload.get_of_bytes rfl (by omega), List.getD_eq_getElem?_getD, ← List.head?_drop, htail]
    rfl
  obtain ⟨kex, hk, enc1, enc2, rest, rfl⟩ : ∃ kex hk enc1 enc2 rest,
      ps = kex :: hk :: enc1 :: enc2 :: rest := by
    have hten : m.lists.length = 10 := rfl
    have hl := congrArg List.length hmap
    rw [List.length_map, hten] at hl
    rcases ps with _ | ⟨kex, _ | ⟨hk, _ | ⟨enc1, _ | ⟨enc2, rest⟩⟩⟩⟩
    · cases hl
    · cases hl
    · cases hl
    · cases hl
    · exact ⟨kex, hk, enc1, enc2, rest, rfl⟩
  simp only [List.map_cons, KexinitFields.lists, List.cons.injEq] at hmap
  obtain ⟨h0, h1, h2, h3, -⟩ := hmap
  have hneg : ∃ s₁, negotiate env s pl = negCheck s₁ m.follows kex hk enc1 enc2 := by
    unfold negotiate
    rw [show (10 : Nat) = m.lists.length from rfl]
    dsimp only
    rw [hps]
    dsimp only
    rw [env.u_small (by omega), if_neg (by omega), hfollows]
    exact ⟨_, rfl⟩
  obtain ⟨s₁, hneg⟩ := hneg
  exact ⟨s₁, kex, hk, enc1, enc2, hneg, h0, h1, h2, h3⟩

theorem names_serverKex (cookie : List UInt8) : names (serverKexinit cookie).kex =
    [ascii "curve25519-sha256", ascii "curve25519-sha256@libssh.org"] := by
  have hnames : names (ascii "curve25519-sha256,curve25519-sha256@libssh.org") =
      [ascii "curve25519-sha256", ascii "curve25519-sha256@libssh.org"] := by decide
  exact hnames

/-- The names that `negotiate` looks for are those that the server offers. -/
theorem sharesCiphers_iff (m : KexinitFields) (cookie : List UInt8) :
    SharesCiphers m (serverKexinit cookie) ↔
      (ascii "curve25519-sha256" ∈ names m.kex ∨
        ascii "curve25519-sha256@libssh.org" ∈ names m.kex) ∧
      ascii "ssh-ed25519" ∈ names m.hostKey ∧
      ascii "chacha20-poly1305@openssh.com" ∈ names m.encC2s ∧
      ascii "chacha20-poly1305@openssh.com" ∈ names m.encS2c := by
  have hhk : names (serverKexinit cookie).hostKey = [ascii "ssh-ed25519"] :=
    (by decide : names (ascii "ssh-ed25519") = [ascii "ssh-ed25519"])
  have hcipher : names (ascii "chacha20-poly1305@openssh.com") =
      [ascii "chacha20-poly1305@openssh.com"] := by decide
  have hc2s : names (serverKexinit cookie).encC2s = [ascii "chacha20-poly1305@openssh.com"] :=
    hcipher
  have hs2c : names (serverKexinit cookie).encS2c = [ascii "chacha20-poly1305@openssh.com"] :=
    hcipher
  unfold SharesCiphers Shares
  rw [names_serverKex, hhk, hc2s, hs2c]
  generalize ascii "curve25519-sha256" = kex1
  generalize ascii "curve25519-sha256@libssh.org" = kex2
  generalize ascii "ssh-ed25519" = hk
  generalize ascii "chacha20-poly1305@openssh.com" = cipher
  simp only [List.mem_cons, List.not_mem_nil, or_false, exists_eq_right]
  constructor
  · rintro ⟨⟨name, hname, rfl | rfl⟩, hrest⟩
    · exact ⟨.inl hname, hrest⟩
    · exact ⟨.inr hname, hrest⟩
  · rintro ⟨hname | hname, hrest⟩
    · exact ⟨⟨kex1, hname, .inl rfl⟩, hrest⟩
    · exact ⟨⟨kex2, hname, .inr rfl⟩, hrest⟩

/-- `negotiate` decides as the protocol asks if and only if a client that it accepts offers no
compression, and does not guess `curve25519-sha256@libssh.org` with a right host key. -/
theorem negotiates_right_iff (env : SshEnv) (s : Ssh) (m : ClientKexinit) (cookie : List UInt8)
    (hpl : pl.bytes = m.encode) :
    NegotiatesRight m.toKexinitFields (serverKexinit cookie) (negotiate env s pl) ↔
      (SharesCiphers m.toKexinitFields (serverKexinit cookie) →
        SharesCompression m.toKexinitFields (serverKexinit cookie) ∧
        ¬ (m.follows ≠ 0 ∧ (names m.kex).head? = some (ascii "curve25519-sha256@libssh.org") ∧
          (names m.hostKey).head? = some (ascii "ssh-ed25519"))) := by
  obtain ⟨s₁, kex, hk, enc1, enc2, hneg, h0, h1, h2, h3⟩ := negotiate_encoded env s m hpl
  obtain ⟨hok, hdiscard⟩ := negCheck_spec s₁ m.follows kex hk enc1 enc2
  rw [hneg]
  generalize negCheck s₁ m.follows kex hk enc1 enc2 = r at hok hdiscard
  simp only [nlHas_iff, tokEq_iff, h0, h1, h2, h3] at hok hdiscard
  rw [← sharesCiphers_iff m.toKexinitFields cookie] at hok
  have hkex : (names (serverKexinit cookie).kex).head? = some (ascii "curve25519-sha256") := by
    rw [names_serverKex]
    rfl
  have hhk : (names (serverKexinit cookie).hostKey).head? = some (ascii "ssh-ed25519") :=
    (by decide : (names (ascii "ssh-ed25519")).head? = some (ascii "ssh-ed25519"))
  have hother : ascii "curve25519-sha256" ≠ ascii "curve25519-sha256@libssh.org" := by decide
  have hguess : GuessedWrong m.toKexinitFields (serverKexinit cookie) ↔ m.follows ≠ 0 ∧
      ((names m.kex).head? ≠ some (ascii "curve25519-sha256") ∨
        (names m.hostKey).head? ≠ some (ascii "ssh-ed25519")) := by
    rw [GuessedWrong, hkex, hhk]
  generalize ascii "curve25519-sha256" = right at *
  generalize ascii "curve25519-sha256@libssh.org" = other at *
  generalize ascii "ssh-ed25519" = hostKey at *
  by_cases hciphers : SharesCiphers m.toKexinitFields (serverKexinit cookie)
  case neg =>
    have hno : r.1 ≠ .ok := fun h => hciphers (hok.mp h)
    refine ⟨fun _ h => absurd h hciphers, fun _ => ⟨?_, fun h => absurd h hno⟩⟩
    exact ⟨fun h => absurd h hno, fun h => absurd h.1 hciphers⟩
  have hyes := hok.mpr hciphers
  -- the server discards exactly when the guess is wrong, but for its second name
  have hagree : (r.2.c.discardNext = true ↔
      GuessedWrong m.toKexinitFields (serverKexinit cookie)) ↔
      ¬ (m.follows ≠ 0 ∧ (names m.kex).head? = some other ∧
        (names m.hostKey).head? = some hostKey) := by
    rw [hdiscard hyes, hguess]
    by_cases hright : (names m.kex).head? = some right
    · simp [hright, hother]
    · simp [hright]
  constructor
  · intro h _
    exact ⟨(h.accepted.mp hyes).2, hagree.mp (h.ignored hyes)⟩
  · intro h
    obtain ⟨hcomp, hguessed⟩ := h hciphers
    exact ⟨⟨fun _ => ⟨hciphers, hcomp⟩, fun _ => hyes⟩, fun _ => hagree.mpr hguessed⟩

end

/-! ## Two clients -/

/-- The message of a client with these lists for key exchange and compression, which guesses if
`follows` is not 0. -/
def sampleKexinit (kex comp : String) (follows : UInt8) : KexinitFields where
  cookie := List.replicate 16 4
  kex := ascii kex
  hostKey := ascii "ssh-ed25519"
  encC2s := ascii "chacha20-poly1305@openssh.com"
  encS2c := ascii "chacha20-poly1305@openssh.com"
  macC2s := ascii "hmac-sha2-256"
  macS2c := ascii "hmac-sha2-256"
  compC2s := ascii comp
  compS2c := ascii comp
  langC2s := []
  langS2c := []
  follows := follows
  reserved := [0, 0, 0, 0]

/-- A client that guesses a method the server does not have is accepted, and its guess is
ignored. -/
theorem negotiates_right_wrong_guess : ∃ m : ClientKexinit,
    m.toKexinitFields = sampleKexinit "ecdh-sha2-nistp256,curve25519-sha256" "none,zlib" 1 ∧
    NegotiatesRight m.toKexinitFields (serverKexinit [])
      (negotiate sampleEnv ⟨SshConn.zero, SshShared.zero, []⟩ (Payload.ofBytes m.encode)) := by
  refine ⟨⟨sampleKexinit "ecdh-sha2-nistp256,curve25519-sha256" "none,zlib" 1, by decide, by decide,
    by decide +kernel⟩, rfl, ?_⟩
  refine (negotiates_right_iff sampleEnv _ _ [] (by decide +kernel)).mpr fun _ => ?_
  decide +kernel

/-- A client that wants compression is accepted.  One that guesses the second name of the
server is taken to have guessed right. -/
theorem negotiates_wrong :
    (∃ m : ClientKexinit, m.toKexinitFields = sampleKexinit "curve25519-sha256" "zlib" 0 ∧
      ¬ NegotiatesRight m.toKexinitFields (serverKexinit [])
        (negotiate sampleEnv ⟨SshConn.zero, SshShared.zero, []⟩ (Payload.ofBytes m.encode))) ∧
    ∃ m : ClientKexinit, m.toKexinitFields = sampleKexinit "curve25519-sha256@libssh.org" "none" 1 ∧
      ¬ NegotiatesRight m.toKexinitFields (serverKexinit [])
        (negotiate sampleEnv ⟨SshConn.zero, SshShared.zero, []⟩ (Payload.ofBytes m.encode)) := by
  constructor
  · refine ⟨⟨sampleKexinit "curve25519-sha256" "zlib" 0, by decide, by decide,
      by decide +kernel⟩, rfl, ?_⟩
    intro h
    have hok : SharesCiphers _ _ ∧ SharesCompression _ _ := h.accepted.mp (by decide +kernel)
    exact absurd hok.2 (by decide +kernel)
  · refine ⟨⟨sampleKexinit "curve25519-sha256@libssh.org" "none" 1, by decide, by decide,
      by decide +kernel⟩, rfl, ?_⟩
    intro h
    have hignored := (h.ignored (by decide +kernel)).mpr (by decide +kernel)
    exact absurd hignored (by decide +kernel)

end Dossh
