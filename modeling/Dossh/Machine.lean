import Dossh.Lib.Clock
import Mathlib.Data.List.Basic

/-!
# Bytes and words

Memory that the code indexes is a function from offsets to bytes.  Byte
strings that the code copies as a whole are lists.  A C `unsigned long` that
wraps is a `BitVec 32`.  Every other integer is a natural number, and where
the source can wrap it is reduced explicitly.
-/

namespace Dossh

/-- The `n` bytes of `p` from offset `o` on. -/
def slice (p : Nat → UInt8) (o n : Nat) : List UInt8 :=
  (List.range n).map fun k => p (o + k)

@[simp] theorem length_slice (p : Nat → UInt8) (o n : Nat) : (slice p o n).length = n := by
  simp [slice]

/-- A slice in two pieces. -/
theorem slice_add (p : Nat → UInt8) (o m n : Nat) :
    slice p o (m + n) = slice p o m ++ slice p (o + m) n := by
  simp [slice, List.range_add, Nat.add_assoc]

theorem drop_slice (p : Nat → UInt8) (o n k : Nat) :
    (slice p o n).drop k = slice p (o + k) (n - k) := by
  rcases Nat.le_total k n with hle | hle
  · obtain ⟨m, rfl⟩ := Nat.exists_eq_add_of_le hle
    rw [slice_add, List.drop_left' (by simp), Nat.add_sub_cancel_left]
  · rw [List.drop_eq_nil_of_le (by simpa using hle), Nat.sub_eq_zero_of_le hle]
    rfl

theorem slice_succ (p : Nat → UInt8) (o n : Nat) :
    slice p o (n + 1) = p o :: slice p (o + 1) n := by
  rw [Nat.add_comm, slice_add]
  rfl

theorem slice_shift (p : Nat → UInt8) (o n : Nat) :
    slice (fun k => p (o + k)) 0 n = slice p o n := by
  simp [slice]

theorem slice_congr {f g : Nat → UInt8} {o m : Nat} (h : ∀ k < m, g (o + k) = f (o + k)) :
    slice g o m = slice f o m := by
  apply List.map_congr_left
  intro k hk
  exact h k (List.mem_range.mp hk)

/-- `rd16`: a big-endian 16-bit word. -/
def rd16 (p : Nat → UInt8) (o : Nat) : Nat :=
  (p o).toNat * 256 + (p (o + 1)).toNat

/-- `rd32` and `rd_u32`: a big-endian 32-bit word. -/
def rd32 (p : Nat → UInt8) (o : Nat) : Nat :=
  (p o).toNat * 16777216 + (p (o + 1)).toNat * 65536 + (p (o + 2)).toNat * 256 +
    (p (o + 3)).toNat

/-- Big-endian bytes of a 16-bit word (`wr16`). -/
def be16 (v : Nat) : List UInt8 := [UInt8.ofNat (v / 256), UInt8.ofNat v]

/-- Big-endian bytes of a 32-bit word (`wr32`, `put_u32`). -/
def be32 (v : Nat) : List UInt8 :=
  [UInt8.ofNat (v / 16777216), UInt8.ofNat (v / 65536), UInt8.ofNat (v / 256), UInt8.ofNat v]

theorem rd16_lt (p : Nat → UInt8) (o : Nat) : rd16 p o < 65536 := by
  have h0 := (p o).toNat_lt
  have h1 := (p (o + 1)).toNat_lt
  simp only [rd16]
  omega

/-- Writing a word that was read gives its bytes back. -/
theorem be16_rd16 (p : Nat → UInt8) (o : Nat) : be16 (rd16 p o) = slice p o 2 := by
  have h0 := (p o).toNat_lt
  have h1 := (p (o + 1)).toNat_lt
  have hslice : slice p o 2 = [p o, p (o + 1)] := rfl
  rw [hslice]
  simp only [be16, rd16, List.cons.injEq, and_true, ← UInt8.toNat_inj, UInt8.toNat_ofNat']
  constructor <;> omega

/-- Writing what was read gives the bytes back. -/
theorem be32_rd32 (p : Nat → UInt8) (o : Nat) : be32 (rd32 p o) = slice p o 4 := by
  have h0 := (p o).toNat_lt
  have h1 := (p (o + 1)).toNat_lt
  have h2 := (p (o + 2)).toNat_lt
  have h3 := (p (o + 3)).toNat_lt
  have hdig : ∀ (x : Nat) (b : UInt8), x % 256 = b.toNat → UInt8.ofNat x = b := by
    intro x b hx
    rw [← UInt8.toNat_inj, UInt8.toNat_ofNat', ← hx]
  have hslice : slice p o 4 = [p o, p (o + 1), p (o + 2), p (o + 3)] := rfl
  rw [hslice]
  simp only [be32, rd32, List.cons.injEq, and_true]
  refine ⟨hdig _ _ ?_, hdig _ _ ?_, hdig _ _ ?_, hdig _ _ ?_⟩ <;> omega

/-- A 32-bit word is determined by its bytes. -/
theorem be32_inj {a b : Nat} (ha : a < 4294967296) (hb : b < 4294967296) (h : be32 a = be32 b) :
    a = b := by
  simp only [be32, List.cons.injEq, and_true, ← UInt8.toNat_inj, UInt8.toNat_ofNat'] at h
  omega

/-- A bit of a flags byte. -/
def hasFlag (flags bit : UInt8) : Bool := flags &&& bit != 0

/-- A buffer with the bytes of `d` copied over it from offset `o` on (`memcpy`). -/
def overlay (p : Nat → UInt8) (o : Nat) (d : List UInt8) : Nat → UInt8 :=
  fun k => if o ≤ k then d.getD (k - o) (p k) else p k

/-- The bytes of an ASCII string literal. -/
def ascii (s : String) : List UInt8 := s.toList.map fun c => UInt8.ofNat c.toNat

/-- A property of all bytes, checked number by number. -/
theorem forall_byte {p : UInt8 → Prop} (h : ∀ n < 256, p (UInt8.ofNat n)) (b : UInt8) : p b := by
  have hb := h b.toNat b.toNat_lt
  rwa [UInt8.ofNat_toNat] at hb

/-- A property of the members of a list, from a test of each of them. -/
theorem forall_mem_of_all {α : Type*} {p : α → Prop} [DecidablePred p] {l : List α}
    (h : (l.all fun x => decide (p x)) = true) (x : α) (hx : x ∈ l) : p x :=
  of_decide_eq_true (List.all_eq_true.mp h x hx)

/-! ## Writing from left to right -/

/-- The buffer starts with these bytes. -/
def Starts (p : Nat → UInt8) (l : List UInt8) : Prop := slice p 0 l.length = l

theorem slice_overlay (p : Nat → UInt8) (o : Nat) (d : List UInt8) :
    slice (overlay p o d) o d.length = d := by
  apply List.ext_getElem (length_slice _ _ _)
  intro k _ hk
  simp [slice, overlay, List.getElem?_eq_getElem hk]

namespace Starts

variable {p : Nat → UInt8} {front mid back d : List UInt8} {o : Nat}

theorem nil (p : Nat → UInt8) : Starts p [] := rfl

/-- A write behind what is there. -/
theorem write (h : Starts p front) (ho : o = front.length) : Starts (overlay p o d) (front ++ d) := by
  have hold : slice (overlay p o d) 0 front.length = slice p 0 front.length := by
    refine slice_congr fun k hk => ?_
    simp only [overlay, Nat.zero_add]
    rw [if_neg (by omega)]
  rw [Starts, List.length_append, slice_add, hold, h, Nat.zero_add, ← ho, slice_overlay]

/-- A write over what is there. -/
theorem rewrite (h : Starts p (front ++ mid ++ back)) (ho : o = front.length)
    (hd : d.length = mid.length) : Starts (overlay p o d) (front ++ d ++ back) := by
  subst ho
  have hparts : ∀ q : Nat → UInt8, slice q 0 (front ++ mid ++ back).length =
      slice q 0 front.length ++ slice q front.length mid.length ++
        slice q (front.length + mid.length) back.length := by
    intro q
    rw [List.length_append, List.length_append, slice_add, slice_add]
    simp only [Nat.zero_add]
  rw [Starts, hparts] at h
  obtain ⟨hfm, hb⟩ := List.append_inj h (by simp)
  have hf := (List.append_inj hfm (by simp)).1
  have hfront : slice (overlay p front.length d) 0 front.length = slice p 0 front.length := by
    refine slice_congr fun k hk => ?_
    simp only [overlay, Nat.zero_add]
    rw [if_neg (by omega)]
  have hback : slice (overlay p front.length d) (front.length + mid.length) back.length =
      slice p (front.length + mid.length) back.length := by
    refine slice_congr fun k hk => ?_
    simp only [overlay]
    rw [if_pos (by omega), List.getD_eq_getElem?_getD, List.getElem?_eq_none (by omega)]
    rfl
  have hlen : (front ++ d ++ back).length = (front ++ mid ++ back).length := by simp [hd]
  rw [Starts, hlen, hparts, hfront, hback, hf, hb, ← hd, slice_overlay]

theorem slice_eq (h : Starts p (front ++ mid)) (ho : o = front.length) {len : Nat}
    (hlen : len = mid.length) : slice p o len = mid := by
  rw [Starts, List.length_append, slice_add, Nat.zero_add] at h
  rw [ho, hlen]
  exact (List.append_inj h (by simp)).2

end Starts

/-! ## The tick counter -/

/-- The ticks of a day: the counter at `0040:006C` goes from `0x1800AF` back to zero. -/
def DAY_TICKS : Nat := 0x1800B0

/-- The counter at a tick counted from some midnight on. -/
def biosTicks (t : Nat) : BitVec 32 := Clock.read DAY_TICKS t

end Dossh
