import Mathlib.Data.BitVec
import Mathlib.Tactic.Linarith

/-!
# A counter that starts again

A clock counts the ticks of a day and starts again at zero, while code that reads it compares two
of its values by the sign of their difference modulo `2^32`.  That is right as long as both values
were read on the same day.
-/

namespace Clock

variable {day t a : Nat}

/-- The counter at tick `t`, for a day of `day` ticks. -/
def read (day t : Nat) : BitVec 32 := BitVec.ofNat 32 (t % day)

/-- The signed difference of two small numbers is their difference. -/
theorem toInt_sub_ofNat {x y : Nat} (hx : x < 2 ^ 31) (hy : y < 2 ^ 31) :
    (BitVec.ofNat 32 x - BitVec.ofNat 32 y).toInt = (x : Int) - y := by
  rw [BitVec.toInt_eq_toNat_cond, BitVec.toNat_sub, BitVec.toNat_ofNat, BitVec.toNat_ofNat]
  split <;> omega

/-- The time between two reads, as the code sees it. -/
theorem elapsed (hpos : 0 < day) (hday : day < 2 ^ 31) :
    (read day t - read day a).toInt = ((t % day : Nat) : Int) - (a % day : Nat) := by
  have ht := Nat.mod_lt t hpos
  have ha := Nat.mod_lt a hpos
  exact toInt_sub_ofNat (by omega) (by omega)

/-- A deadline set `k` ticks ahead has passed, as the code sees it. -/
theorem due_iff (hpos : 0 < day) {k : Nat} (hk : day + k < 2 ^ 31) :
    0 ≤ (read day t - (read day a + BitVec.ofNat 32 k)).toInt ↔ a % day + k ≤ t % day := by
  have ht := Nat.mod_lt t hpos
  have ha := Nat.mod_lt a hpos
  have hsum : read day a + BitVec.ofNat 32 k = BitVec.ofNat 32 (a % day + k) :=
    (BitVec.ofNat_add _ _).symm
  rw [hsum, read, toInt_sub_ofNat (by omega) (by omega)]
  omega

/-- On one day the counter shows the time that has passed. -/
theorem mod_same_day (hle : a ≤ t) (hsame : t / day = a / day) :
    t % day = a % day + (t - a) := by
  have ht := Nat.div_add_mod t day
  have ha := Nat.div_add_mod a day
  rw [hsame] at ht
  omega

end Clock
