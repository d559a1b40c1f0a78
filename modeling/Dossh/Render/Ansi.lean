import Dossh.Render.Model
import Dossh.Lib.Terminal

/-!
# The ANSI bytes and the terminal under them

The emit helpers of `render.c` append fixed strings of bytes to a buffer that has
room for them, and a terminal that is fed one of these strings moves its cursor,
selects a rendition or writes a glyph, from whatever state its parser was in.
-/

namespace Dossh

open Terminal

/-! ## The bytes of the emit helpers -/

/-- The bytes of `e_num`. -/
def numBytes (v : Nat) : List UInt8 := if v = 0 then [0x30] else numDigits 6 v []

/-- The bytes of `e_cup`. -/
def cupBytes (row col : Nat) : List UInt8 :=
  [0x1B, 0x5B] ++ numBytes (row + 1) ++ [0x3B] ++ numBytes (col + 1) ++ [0x48]

/-- The bytes of `e_sgr`. -/
def sgrBytes (attr : UInt8) : List UInt8 :=
  [0x1B, 0x5B, 0x30, 0x3B] ++ numBytes (sgrFg attr) ++ [0x3B] ++ numBytes (sgrBg attr) ++
    (if attr &&& 0x80 ≠ 0 then [0x3B, 0x35] else []) ++ [0x6D]

/-- The helper appends `bs` to a buffer that has room for them. -/
def Emits (f : List UInt8 → List UInt8) (bs : List UInt8) : Prop :=
  ∀ o, o.length + bs.length ≤ OBUF → f o = o ++ bs

theorem Emits.comp {f g : List UInt8 → List UInt8} {bs bs' : List UInt8} (hf : Emits f bs)
    (hg : Emits g bs') : Emits (fun o => g (f o)) (bs ++ bs') := by
  intro o h
  rw [List.length_append] at h
  show g (f o) = o ++ (bs ++ bs')
  rw [hf o (by omega), hg _ (by rw [List.length_append]; omega), List.append_assoc]

theorem eB_emits (c : UInt8) : Emits (fun o => eB o c) [c] := fun _ h => if_pos h

theorem eS_emits : ∀ s : List UInt8, Emits (fun o => eS o s) s
  | [], o, _ => by simp [eS]
  | c :: s, o, h => ((eB_emits c).comp (eS_emits s)) o h

theorem eNum_emits (v : Nat) : Emits (fun o => eNum o v) (numBytes v) := by
  unfold eNum numBytes
  split
  · exact eB_emits _
  · exact eS_emits _

theorem eCup_emits (row col : Nat) : Emits (fun o => eCup o row col) (cupBytes row col) :=
  ((((eS_emits _).comp (eNum_emits _)).comp (eB_emits _)).comp (eNum_emits _)).comp (eB_emits _)

theorem eSgr_emits (attr : UInt8) : Emits (fun o => eSgr o attr) (sgrBytes attr) := by
  have hblink : Emits (fun o => if attr &&& 0x80 ≠ 0 then eS o [0x3B, 0x35] else o)
      (if attr &&& 0x80 ≠ 0 then [0x3B, 0x35] else []) := by
    split
    · exact eS_emits _
    · intro o _
      exact (List.append_nil o).symm
  exact (((((eS_emits _).comp (eNum_emits _)).comp (eB_emits _)).comp (eNum_emits _)).comp
    hblink).comp (eB_emits _)

/-- Small numbers have up to three digits, which read back as the number. -/
theorem numBytes_spec (v : Nat) (hv : v ≤ 256) : (∀ d ∈ numBytes v, 0x30 ≤ d ∧ d ≤ 0x39) ∧
    Term.digitsVal 0 (numBytes v) = v ∧ (numBytes v).length ≤ 3 := by
  have htable : ∀ v < 257, (numBytes v).all (fun d => 0x30 ≤ d ∧ d ≤ 0x39) = true ∧
      Term.digitsVal 0 (numBytes v) = v ∧ (numBytes v).length ≤ 3 := by decide +kernel
  obtain ⟨hdigits, hrest⟩ := htable v (Nat.lt_succ_of_le hv)
  exact ⟨forall_mem_of_all hdigits, hrest⟩

theorem byte_le (b : UInt8) : b.toNat ≤ 255 := Nat.lt_succ_iff.mp b.toNat_lt

theorem cupBytes_length {row col : Nat} (hr : row ≤ 255) (hc : col ≤ 255) :
    (cupBytes row col).length ≤ 10 := by
  have h1 := (numBytes_spec (row + 1) (by omega)).2.2
  have h2 := (numBytes_spec (col + 1) (by omega)).2.2
  simp [cupBytes]
  omega

/-- What the bytes of one attribute and of one character amount to. -/
theorem attr_spec (b : UInt8) : sgrFg b ≤ 99 ∧ sgrBg b ≤ 47 ∧ (sgrBytes b).length ≤ 12 ∧
    (charBytes b).length ≤ 3 ∧ utf8Printable (charBytes b) = true := by
  revert b
  exact forall_byte (by decide +kernel)

/-! ## The terminal under them -/

/-- The rendition of an attribute. -/
def sgrOf (attr : UInt8) : Sgr := ⟨sgrFg attr, sgrBg attr, attr &&& 0x80 ≠ 0⟩

/-- The code point of a character. -/
def glyphOf (ch : UInt8) : Nat := utf8Value (charBytes ch)

/-- A number between two bytes of a control sequence. -/
theorem feed_num {t : Term} {priv : Bool} {done : List Nat} {v : Nat}
    (hp : t.parser = .csi priv done 0) (hv : v ≤ 256) :
    t.feed (numBytes v) = { t with parser := .csi priv done v } := by
  obtain ⟨hdig, hval, _⟩ := numBytes_spec v hv
  rw [Term.feed_digits hdig hp, hval]

/-- CUP moves the cursor, from any state of the parser. -/
theorem feed_cup (t : Term) {row col : Nat} (hr : row ≤ 255) (hc : col ≤ 255) :
    t.feed (cupBytes row col) = { t with
      parser := .ground, row := min row (t.rows - 1), col := min col (t.cols - 1) } := by
  have hassoc : cupBytes row col =
      0x1B :: 0x5B :: (numBytes (row + 1) ++ (0x3B :: (numBytes (col + 1) ++ [0x48]))) := by
    simp [cupBytes]
  rw [hassoc, Term.feed_csi, Term.feed_append, feed_num rfl (by omega), Term.feed_cons,
    Term.byte_semicolon rfl, Term.feed_append, feed_num rfl (by omega), Term.feed_cons,
    Term.byte_final rfl (by decide)]
  simp [Term.control, Term.moveTo]

/-- The parameters of `e_sgr` select the rendition of the attribute. -/
theorem select_sgrOf (s : Sgr) (attr : UInt8) :
    ([0, sgrFg attr, sgrBg attr] ++ if attr &&& 0x80 ≠ 0 then [5] else []).foldl Sgr.select s =
      sgrOf attr := by
  have hplain : ∀ b : UInt8,
      ([sgrFg b, sgrBg b] ++ if b &&& 0x80 ≠ 0 then [5] else []).foldl Sgr.select Sgr.plain =
        sgrOf b := forall_byte (by decide +kernel)
  exact hplain attr

/-- SGR selects the rendition of the attribute, from any state of the parser. -/
theorem feed_sgr (t : Term) (attr : UInt8) :
    t.feed (sgrBytes attr) = { t with parser := .ground, sgr := sgrOf attr } := by
  obtain ⟨hfg, hbg, _⟩ := attr_spec attr
  have hassoc : sgrBytes attr = 0x1B :: 0x5B :: 0x30 :: 0x3B :: (numBytes (sgrFg attr) ++
      (0x3B :: (numBytes (sgrBg attr) ++
        ((if attr &&& 0x80 ≠ 0 then [0x3B, 0x35] else []) ++ [0x6D])))) := by
    simp [sgrBytes]
  have hzero : ({ t with parser := .csi false [] 0 } : Term).feed [0x30, 0x3B] =
      { t with parser := .csi false [0] 0 } := by
    simp [Term.byte]
  have hsplit : ∀ bs, ({ t with parser := .csi false [] 0 } : Term).feed (0x30 :: 0x3B :: bs) =
      ({ t with parser := .csi false [0] 0 } : Term).feed bs := by
    intro bs
    rw [← hzero, ← Term.feed_append]
    rfl
  rw [hassoc, Term.feed_csi, hsplit, Term.feed_append, feed_num rfl (by omega), Term.feed_cons,
    Term.byte_semicolon rfl, Term.feed_append, feed_num rfl (by omega)]
  have hsel := select_sgrOf t.sgr attr
  by_cases hb : attr &&& 0x80 ≠ 0
  · rw [if_pos hb] at hsel ⊢
    show Term.feed _ [0x3B, 0x35, 0x6D] = _
    rw [Term.feed_cons, Term.byte_semicolon rfl, Term.feed_cons,
      Term.byte_digit rfl (by decide), Term.feed_cons, Term.byte_final rfl (by decide)]
    show ({ t with
      parser := .ground
      sgr := ([0, sgrFg attr, sgrBg attr] ++ [5]).foldl Sgr.select t.sgr } : Term) = _
    rw [hsel]
  · rw [if_neg hb] at hsel ⊢
    simp only [List.nil_append, Term.feed_cons, Term.feed_nil]
    rw [Term.byte_final rfl (by decide)]
    show ({ t with
      parser := .ground
      sgr := ([0, sgrFg attr, sgrBg attr] ++ []).foldl Sgr.select t.sgr } : Term) = _
    rw [hsel]

/-- A character is written as one glyph. -/
theorem feed_char {t : Term} (hp : t.parser = .ground) (ch : UInt8) :
    t.feed (charBytes ch) = t.put (glyphOf ch) :=
  Term.feed_utf8 hp (attr_spec ch).2.2.2.2

/-- The start of every frame: auto-wrap off and the cursor hidden. -/
theorem feed_header (t : Term) :
    t.feed [0x1B, 0x5B, 0x3F, 0x37, 0x6C, 0x1B, 0x5B, 0x3F, 0x32, 0x35, 0x6C] =
      { t with parser := .ground, wrap := false, visible := false } := by
  simp [Term.byte, Term.control, Term.setMode]

/-- A hard clear. -/
theorem feed_clear (t : Term) :
    t.feed [0x1B, 0x5B, 0x32, 0x4A, 0x1B, 0x5B, 0x48] =
      { t with parser := .ground, row := 0, col := 0, grid := fun _ _ => Cell.blank } := by
  simp [Term.byte, Term.control, Term.eraseDisplay, Term.erase, Term.moveTo]

/-- The end of every frame: the cursor is shown or hidden. -/
theorem feed_cursor (t : Term) (on : Bool) :
    t.feed [0x1B, 0x5B, 0x3F, 0x32, 0x35, if on then 0x68 else 0x6C] =
      { t with parser := .ground, visible := on } := by
  cases on <;> simp [Term.byte, Term.control, Term.setMode]

end Dossh
