import Mathlib.Data.BitVec
import Mathlib.Tactic.Linarith

/-!
# Serial numbers

Sequence numbers wrap, and code that compares them looks at the sign of their
difference.  Against a fixed base `u`, numbers whose distance from `u` is below
`2^31` are ordered by that distance, and the signed comparisons agree with the
order of the distances.
-/

namespace Serial

variable {u x y a : BitVec 32}

/-- A number lies ahead of `u` iff its distance is positive and below `2^31`. -/
theorem toInt_sub_pos : 0 < (a - u).toInt ↔ 0 < (a - u).toNat ∧ (a - u).toNat < 2 ^ 31 := by
  have := (a - u).isLt
  rw [BitVec.toInt_eq_toNat_cond]
  split <;> omega

/-- A number is determined by its distance. -/
theorem toNat_sub_inj : (a - u).toNat = (x - u).toNat ↔ a = x := by
  constructor
  · intro h
    bv_omega
  · intro h
    rw [h]

/-- Two numbers are in order of their distances from a base behind both. -/
theorem toInt_sub_le (hx : (x - u).toNat < 2 ^ 31) (ha : (a - u).toNat < 2 ^ 31) :
    (a - x).toInt ≤ 0 ↔ (a - u).toNat ≤ (x - u).toNat := by
  have heq : a - x = (a - u) - (x - u) := by bv_omega
  rw [heq, BitVec.toInt_eq_toNat_cond, BitVec.toNat_sub]
  split <;> omega

/-- The numbers after `u` and up to `x` are those whose distance says so. -/
theorem between_iff (hx : (x - u).toNat < 2 ^ 31) :
    (0 < (a - u).toInt ∧ (a - x).toInt ≤ 0) ↔
      (0 < (a - u).toNat ∧ (a - u).toNat ≤ (x - u).toNat) := by
  rw [toInt_sub_pos]
  constructor
  · intro ⟨⟨hpos, hlt⟩, hle⟩
    exact ⟨hpos, (toInt_sub_le hx hlt).mp hle⟩
  · intro ⟨hpos, hle⟩
    have hlt : (a - u).toNat < 2 ^ 31 := by omega
    exact ⟨⟨hpos, hlt⟩, (toInt_sub_le hx hlt).mpr hle⟩

/-- Moving a number up by `k` moves its distance up by `k`. -/
theorem toNat_add_sub {k : Nat} (h : (x - u).toNat + k < 2 ^ 32) :
    (x + BitVec.ofNat 32 k - u).toNat = (x - u).toNat + k := by
  have heq : x + BitVec.ofNat 32 k - u = (x - u) + BitVec.ofNat 32 k := by bv_omega
  rw [heq, BitVec.toNat_add, BitVec.toNat_ofNat, Nat.mod_eq_of_lt (a := k) (by omega),
    Nat.mod_eq_of_lt h]

/-- Moving the base up to a number `a` shortens the distance of what lies beyond. -/
theorem toNat_sub_sub (h : (a - u).toNat ≤ (x - u).toNat) :
    (x - a).toNat = (x - u).toNat - (a - u).toNat := by
  have heq : x - a = (x - u) - (a - u) := by bv_omega
  rw [heq, BitVec.toNat_sub_of_le]
  exact BitVec.le_def.mpr h

end Serial
