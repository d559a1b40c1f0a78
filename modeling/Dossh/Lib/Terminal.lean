import Mathlib.Data.List.Basic

/-!
# A character terminal

A terminal with a grid of cells, a cursor, a current rendition and a parser that
may stand inside an escape sequence or a UTF-8 character.  It understands cursor
positioning (CUP), erasing (ED, EL), select graphic rendition (SGR), the two
private modes auto-wrap and cursor visibility, the C0 controls that move the
cursor, and UTF-8 text.  ESC aborts whatever the parser was in.

A cell of the grid holds a code point and the rendition it was written with.
Colours are kept as the SGR parameters that select them.
-/

namespace Terminal

/-! ## State -/

/-- A graphic rendition. -/
structure Sgr where
  fg : Nat
  bg : Nat
  blink : Bool
deriving DecidableEq, Repr

/-- The rendition after SGR 0. -/
def Sgr.plain : Sgr := ⟨37, 40, false⟩

structure Cell where
  glyph : Nat
  sgr : Sgr
deriving DecidableEq, Repr

/-- An erased cell. -/
def Cell.blank : Cell := ⟨0x20, Sgr.plain⟩

/-- Where the parser stands. -/
inductive Parser where
  | ground
  | esc
  /-- Inside a control sequence: a `?` was seen, the finished parameters, and the
  parameter being read. -/
  | csi (priv : Bool) (done : List Nat) (cur : Nat)
  /-- Inside a UTF-8 character: how many bytes are missing, and the bits so far. -/
  | utf8 (need : Nat) (acc : Nat)
deriving DecidableEq, Repr

structure Term where
  rows : Nat
  cols : Nat
  grid : Nat → Nat → Cell
  row : Nat
  col : Nat
  sgr : Sgr
  wrap : Bool
  visible : Bool
  parser : Parser

/-! ## Actions -/

namespace Term

/-- To the start of the next line; at the bottom the grid scrolls up. -/
def newline (t : Term) : Term :=
  if t.row + 1 < t.rows then { t with row := t.row + 1, col := 0 }
  else
    { t with
      col := 0
      grid := fun r c => if r + 1 < t.rows then t.grid (r + 1) c
        else if r < t.rows then Cell.blank else t.grid r c }

/-- Write a glyph at the cursor and advance. -/
def put (t : Term) (g : Nat) : Term :=
  let t := { t with
    parser := .ground
    grid := fun r c => if r = t.row ∧ c = t.col ∧ r < t.rows ∧ c < t.cols then ⟨g, t.sgr⟩
      else t.grid r c }
  if t.col + 1 < t.cols then { t with col := t.col + 1 }
  else if t.wrap then t.newline
  else t

/-- CUP: 1-based, clamped to the grid. -/
def moveTo (t : Term) (row col : Nat) : Term :=
  { t with row := min (row - 1) (t.rows - 1), col := min (col - 1) (t.cols - 1) }

/-- Erase the cells that `p` selects. -/
def erase (t : Term) (p : Nat → Nat → Bool) : Term :=
  { t with grid := fun r c => if p r c then Cell.blank else t.grid r c }

/-- ED. -/
def eraseDisplay (t : Term) (mode : Nat) : Term :=
  if mode = 0 then t.erase fun r c => t.row < r || (r = t.row && t.col ≤ c)
  else if mode = 1 then t.erase fun r c => r < t.row || (r = t.row && c ≤ t.col)
  else if mode = 2 ∨ mode = 3 then t.erase fun _ _ => true
  else t

/-- EL. -/
def eraseLine (t : Term) (mode : Nat) : Term :=
  if mode = 0 then t.erase fun r c => r = t.row && t.col ≤ c
  else if mode = 1 then t.erase fun r c => r = t.row && c ≤ t.col
  else if mode = 2 then t.erase fun r _ => r = t.row
  else t

end Term

/-- One SGR parameter. -/
def Sgr.select (s : Sgr) (p : Nat) : Sgr :=
  if p = 0 then Sgr.plain
  else if p = 5 then { s with blink := true }
  else if p = 25 then { s with blink := false }
  else if (30 ≤ p ∧ p ≤ 37) ∨ (90 ≤ p ∧ p ≤ 97) then { s with fg := p }
  else if (40 ≤ p ∧ p ≤ 47) ∨ (100 ≤ p ∧ p ≤ 107) then { s with bg := p }
  else s

namespace Term

/-- A private mode is switched on or off. -/
def setMode (on : Bool) (t : Term) (p : Nat) : Term :=
  if p = 7 then { t with wrap := on }
  else if p = 25 then { t with visible := on }
  else t

/-- A control sequence with its parameters and final byte. -/
def control (t : Term) (priv : Bool) (ps : List Nat) (final : UInt8) : Term :=
  if priv then
    if final = 0x68 then ps.foldl (setMode true) t
    else if final = 0x6C then ps.foldl (setMode false) t
    else t
  else if final = 0x48 ∨ final = 0x66 then t.moveTo (max 1 (ps.getD 0 0)) (max 1 (ps.getD 1 0))
  else if final = 0x4A then t.eraseDisplay (ps.getD 0 0)
  else if final = 0x4B then t.eraseLine (ps.getD 0 0)
  else if final = 0x6D then { t with sgr := ps.foldl Sgr.select t.sgr }
  else t

/-- A byte outside escape sequences and multi-byte characters. -/
def plainByte (t : Term) (b : UInt8) : Term :=
  let t := { t with parser := .ground }
  if b = 0x0D then { t with col := 0 }
  else if b = 0x0A then { t with row := min (t.row + 1) (t.rows - 1) }
  else if b = 0x08 then { t with col := t.col - 1 }
  else if b < 0x20 ∨ b = 0x7F then t
  else if b < 0x80 then t.put b.toNat
  else if b < 0xC0 then t
  else if b < 0xE0 then { t with parser := .utf8 1 (b &&& 0x1F).toNat }
  else if b < 0xF0 then { t with parser := .utf8 2 (b &&& 0x0F).toNat }
  else { t with parser := .utf8 3 (b &&& 0x07).toNat }

/-- One byte. -/
def byte (t : Term) (b : UInt8) : Term :=
  if b = 0x1B then { t with parser := .esc }
  else
    match t.parser with
    | .ground => t.plainByte b
    | .esc => { t with parser := if b = 0x5B then .csi false [] 0 else .ground }
    | .csi priv done cur =>
        if 0x30 ≤ b ∧ b ≤ 0x39 then
          { t with parser := .csi priv done (cur * 10 + (b.toNat - 0x30)) }
        else if b = 0x3B then { t with parser := .csi priv (done ++ [cur]) 0 }
        else if b = 0x3F then { t with parser := .csi true done cur }
        else if 0x40 ≤ b ∧ b ≤ 0x7E then
          { t with parser := .ground }.control priv (done ++ [cur]) b
        else t
    | .utf8 need acc =>
        if b &&& 0xC0 = 0x80 then
          let acc := acc * 64 + (b &&& 0x3F).toNat
          if need ≤ 1 then t.put acc else { t with parser := .utf8 (need - 1) acc }
        else t.plainByte b

/-- A string of bytes. -/
def feed (t : Term) (bs : List UInt8) : Term := bs.foldl byte t

/-! ## Rules -/

@[simp] theorem feed_nil (t : Term) : t.feed [] = t := rfl

@[simp] theorem feed_cons (t : Term) (b : UInt8) (bs : List UInt8) :
    t.feed (b :: bs) = (t.byte b).feed bs := rfl

theorem feed_append (t : Term) (bs bs' : List UInt8) :
    t.feed (bs ++ bs') = (t.feed bs).feed bs' := List.foldl_append

@[simp] theorem byte_esc (t : Term) : t.byte 0x1B = { t with parser := .esc } := by
  simp [byte]

/-- The control sequence introducer starts afresh from wherever the parser stood. -/
@[simp] theorem feed_csi (t : Term) (bs : List UInt8) :
    t.feed (0x1B :: 0x5B :: bs) = { t with parser := .csi false [] 0 }.feed bs := by
  simp [byte]

/-- A digit of a parameter. -/
theorem byte_digit {t : Term} {priv : Bool} {done : List Nat} {cur : Nat} {d : UInt8}
    (hp : t.parser = .csi priv done cur) (hd : 0x30 ≤ d ∧ d ≤ 0x39) :
    t.byte d = { t with parser := .csi priv done (cur * 10 + (d.toNat - 0x30)) } := by
  have hne : d ≠ 0x1B := by
    rintro rfl
    exact absurd hd.1 (by decide)
  simp only [byte, hne, if_false, hp, hd.1, hd.2, and_self, if_true]

/-- The number a string of digits adds to a parameter. -/
def digitsVal (cur : Nat) (ds : List UInt8) : Nat :=
  ds.foldl (fun a d => a * 10 + (d.toNat - 0x30)) cur

/-- Digits of a parameter. -/
theorem feed_digits {priv : Bool} {done : List Nat} :
    ∀ {ds : List UInt8} {t : Term} {cur : Nat}, (∀ d ∈ ds, 0x30 ≤ d ∧ d ≤ 0x39) →
      t.parser = .csi priv done cur →
      t.feed ds = { t with parser := .csi priv done (digitsVal cur ds) }
  | [], t, cur, _, hp => by
      cases t
      simp_all [digitsVal]
  | d :: ds, t, cur, hd, hp => by
      rw [feed_cons, byte_digit hp (hd d List.mem_cons_self), feed_digits (fun d' hd' => hd d' (List.mem_cons_of_mem _ hd')) rfl]
      rfl

/-- The separator of parameters. -/
theorem byte_semicolon {t : Term} {priv : Bool} {done : List Nat} {cur : Nat}
    (hp : t.parser = .csi priv done cur) :
    t.byte 0x3B = { t with parser := .csi priv (done ++ [cur]) 0 } := by
  simp [byte, hp]

/-- The final byte of a control sequence. -/
theorem byte_final {t : Term} {priv : Bool} {done : List Nat} {cur : Nat} {b : UInt8}
    (hp : t.parser = .csi priv done cur) (hb : 0x40 ≤ b ∧ b ≤ 0x7E) :
    t.byte b = { t with parser := .ground }.control priv (done ++ [cur]) b := by
  have h1 : b ≠ 0x1B := by
    rintro rfl
    exact absurd hb.1 (by decide)
  have h2 : ¬ b ≤ 0x39 := fun h => absurd (UInt8.le_trans hb.1 h) (by decide)
  have h3 : b ≠ 0x3B := by
    rintro rfl
    exact absurd hb.1 (by decide)
  have h4 : b ≠ 0x3F := by
    rintro rfl
    exact absurd hb.1 (by decide)
  simp [byte, hp, h1, h2, h3, h4, hb.1, hb.2]

/-- Writing with auto-wrap off stays on the line. -/
theorem put_eq {t : Term} (g : Nat) (hw : t.wrap = false) :
    t.put g = { t with
      parser := .ground
      col := if t.col + 1 < t.cols then t.col + 1 else t.col
      grid := fun r c => if r = t.row ∧ c = t.col ∧ r < t.rows ∧ c < t.cols then ⟨g, t.sgr⟩
        else t.grid r c } := by
  unfold put
  dsimp only
  split
  · rfl
  · rw [hw]
    rfl

end Term

/-! ## UTF-8 -/

/-- The code point of an encoded character. -/
def utf8Value : List UInt8 → Nat
  | [a] => a.toNat
  | [a, b] => (a &&& 0x1F).toNat * 64 + (b &&& 0x3F).toNat
  | [a, b, c] => ((a &&& 0x0F).toNat * 64 + (b &&& 0x3F).toNat) * 64 + (c &&& 0x3F).toNat
  | _ => 0

/-- A printable character in one, two or three bytes. -/
def utf8Printable : List UInt8 → Bool
  | [a] => 0x20 ≤ a && a < 0x7F
  | [a, b] => 0xC0 ≤ a && a < 0xE0 && b &&& 0xC0 = 0x80
  | [a, b, c] => 0xE0 ≤ a && a < 0xF0 && b &&& 0xC0 = 0x80 && c &&& 0xC0 = 0x80
  | _ => false

/-! ## Complete sequences -/

/-- Complete control sequences and printable characters, one behind the other. -/
inductive Whole : List UInt8 → Prop where
  | nil : Whole []
  | csi {params rest : List UInt8} {final : UInt8} (hparams : ∀ p ∈ params, 0x30 ≤ p ∧ p ≤ 0x3F)
      (hfinal : 0x40 ≤ final ∧ final ≤ 0x7E) (h : Whole rest) :
      Whole (0x1B :: 0x5B :: (params ++ final :: rest))
  | char {rest : List UInt8} (c : Char) (hlow : 0x20 ≤ c.toNat) (hdel : c.toNat ≠ 0x7F)
      (h : Whole rest) : Whole (String.utf8EncodeChar c ++ rest)

theorem Whole.append {bs bs' : List UInt8} (h : Whole bs) (h' : Whole bs') : Whole (bs ++ bs') := by
  induction h with
  | nil => exact h'
  | csi hparams hfinal _ ih =>
      simp only [List.cons_append, List.append_assoc]
      exact .csi hparams hfinal ih
  | char c hlow hdel _ ih =>
      rw [List.append_assoc]
      exact .char c hlow hdel ih

namespace Term

/-- The first byte of a character that needs more, from the ground state. -/
theorem byte_lead {t : Term} {b : UInt8} (hp : t.parser = .ground) (hb : 0xC0 ≤ b) :
    t.byte b =
      if b < 0xE0 then { t with parser := .utf8 1 (b &&& 0x1F).toNat }
      else if b < 0xF0 then { t with parser := .utf8 2 (b &&& 0x0F).toNat }
      else { t with parser := .utf8 3 (b &&& 0x07).toNat } := by
  have hlow : ∀ k : UInt8, k < 0xC0 → b ≠ k := by
    rintro k hk rfl
    exact absurd (UInt8.lt_of_lt_of_le hk hb) (UInt8.lt_irrefl _)
  have hle : ∀ k : UInt8, k ≤ 0xC0 → ¬ b < k := fun k hk hlt =>
    absurd (UInt8.lt_of_lt_of_le hlt (UInt8.le_trans hk hb)) (UInt8.lt_irrefl _)
  simp only [byte, plainByte, hp, hlow 0x1B (by decide), hlow 0x0D (by decide),
    hlow 0x0A (by decide), hlow 0x08 (by decide), hlow 0x7F (by decide), hle 0x20 (by decide),
    hle 0x80 (by decide), hle 0xC0 (by decide), if_false, or_self]

/-- A continuation byte. -/
theorem byte_continue {t : Term} {b : UInt8} {need acc : Nat} (hp : t.parser = .utf8 need acc)
    (hb : b &&& 0xC0 = 0x80) :
    t.byte b = if need ≤ 1 then t.put (acc * 64 + (b &&& 0x3F).toNat)
      else { t with parser := .utf8 (need - 1) (acc * 64 + (b &&& 0x3F).toNat) } := by
  have hne : b ≠ 0x1B := by
    rintro rfl
    exact absurd hb (by decide)
  simp [byte, hp, hne, hb]

theorem parser_put (t : Term) (p : Parser) (g : Nat) : { t with parser := p }.put g = t.put g := rfl

/-- A printable character is written as one glyph. -/
theorem feed_utf8 {t : Term} (hp : t.parser = .ground) :
    ∀ {bs : List UInt8}, utf8Printable bs = true → t.feed bs = t.put (utf8Value bs)
  | [a], h => by
      simp only [utf8Printable, Bool.and_eq_true, decide_eq_true_eq] at h
      obtain ⟨h1, h2⟩ := h
      have hlow : ∀ k : UInt8, k < 0x20 → a ≠ k := by
        rintro k hk rfl
        exact absurd (UInt8.lt_of_lt_of_le hk h1) (UInt8.lt_irrefl _)
      have h7f : a ≠ 0x7F := UInt8.ne_of_lt h2
      have h20 : ¬ a < 0x20 := UInt8.not_lt.mpr h1
      have h80 : a < 0x80 := UInt8.lt_trans h2 (by decide)
      simp [byte, plainByte, hp, hlow 0x1B (by decide), hlow 0x0D (by decide),
        hlow 0x0A (by decide), hlow 0x08 (by decide), h7f, h20, h80, utf8Value, parser_put]
  | [a, b], h => by
      simp only [utf8Printable, Bool.and_eq_true, decide_eq_true_eq] at h
      obtain ⟨⟨h1, h2⟩, h3⟩ := h
      rw [feed_cons, byte_lead hp h1, if_pos h2, feed_cons, byte_continue rfl h3]
      rfl
  | [a, b, c], h => by
      simp only [utf8Printable, Bool.and_eq_true, decide_eq_true_eq] at h
      obtain ⟨⟨⟨h1, h2⟩, h3⟩, h4⟩ := h
      have h5 : ¬ a < 0xE0 := UInt8.not_lt.mpr h1
      have h6 : 0xC0 ≤ a := UInt8.le_trans (by decide) h1
      rw [feed_cons, byte_lead hp h6, if_neg h5, if_pos h2, feed_cons, byte_continue rfl h3,
        if_neg (by decide), feed_cons, byte_continue rfl h4]
      rfl

/-! ## The size of the grid -/

end Term

end Terminal
