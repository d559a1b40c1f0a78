import Mathlib.Data.List.Basic
import Mathlib.Algebra.Order.Ring.Nat

/-!
# One's-complement checksums

A byte string is read as big-endian 16-bit words, an odd last byte with a zero behind it.  Words
are added with an end-around carry.  The sum of a string depends on the plain sum of its words
only: it is that number folded into 16 bits.  A checksum is the complement of the sum, and a
string that carries it sums to `0xFFFF`.
-/

namespace Checksum

/-! ## Words -/

/-- The 16-bit words of a byte string. -/
def words : List UInt8 → List Nat
  | [] => []
  | [a] => [a.toNat * 256]
  | a :: b :: l => (a.toNat * 256 + b.toNat) :: words l

/-- The sum of two words with an end-around carry. -/
def add (x y : Nat) : Nat := if x + y < 65536 then x + y else x + y - 65535

/-- The 16-bit one's-complement sum of a byte string. -/
def sum (l : List UInt8) : Nat := (words l).foldl add 0

/-- The plain sum of the words. -/
def total (l : List UInt8) : Nat := (words l).sum

theorem words_lt : ∀ (l : List UInt8), ∀ w ∈ words l, w < 65536
  | [], _, hw => by simp [words] at hw
  | [a], w, hw => by
      have ha := a.toNat_lt
      rw [words, List.mem_singleton] at hw
      omega
  | a :: b :: l, w, hw => by
      have ha := a.toNat_lt
      have hb := b.toNat_lt
      rw [words, List.mem_cons] at hw
      rcases hw with rfl | hw
      · omega
      · exact words_lt l w hw

/-- Words are counted from the start: a string can be cut at an even place. -/
theorem words_append : ∀ (l l' : List UInt8), l.length % 2 = 0 →
    words (l ++ l') = words l ++ words l'
  | [], _, _ => rfl
  | [_], _, h => by simp at h
  | a :: b :: l, l', h => by
      rw [List.length_cons, List.length_cons] at h
      rw [List.cons_append, List.cons_append, words, words, words_append l l' (by omega)]
      rfl

theorem total_append {l l' : List UInt8} (h : l.length % 2 = 0) :
    total (l ++ l') = total l + total l' := by
  rw [total, words_append l l' h, List.sum_append]
  rfl

theorem total_single (a : UInt8) : total [a] = a.toNat * 256 := Nat.add_zero _

theorem total_pair (a b : UInt8) (l : List UInt8) :
    total (a :: b :: l) = a.toNat * 256 + b.toNat + total l := by
  rw [total, words, List.sum_cons]
  rfl

/-- A string of `2 * k` bytes, or of one byte more, holds `k` full words. -/
theorem total_le : ∀ (l : List UInt8), total l ≤ 65535 * ((l.length + 1) / 2)
  | [] => Nat.zero_le _
  | [a] => by
      have ha := a.toNat_lt
      rw [total, words, List.sum_singleton]
      simp only [List.length_singleton]
      omega
  | a :: b :: l => by
      have ha := a.toNat_lt
      have hb := b.toNat_lt
      have ih := total_le l
      rw [total_pair, List.length_cons, List.length_cons]
      omega

/-! ## Folding -/

/-- A number folded into 16 bits: zero stays zero, and every other number keeps its class modulo
`65535`. -/
def fold (k : Nat) : Nat := if k = 0 then 0 else (k - 1) % 65535 + 1

theorem fold_of_lt {k : Nat} (h : k < 65536) : fold k = k := by
  unfold fold
  split
  · omega
  · rw [Nat.mod_eq_of_lt (by omega)]
    omega

theorem fold_lt (k : Nat) : fold k < 65536 := by
  unfold fold
  split <;> omega

/-- An end-around carry does not matter. -/
theorem fold_carry (k : Nat) : fold (k % 65536 + k / 65536) = fold k := by
  unfold fold
  split <;> split <;> omega

theorem add_fold (k w : Nat) (hw : w < 65536) : add (fold k) w = fold (k + w) := by
  unfold add fold
  split <;> split <;> split <;> omega

/-- The sum of a string is its plain sum, folded. -/
theorem sum_eq_fold (l : List UInt8) : sum l = fold (total l) := by
  have hstep : ∀ (ws : List Nat) (k : Nat), (∀ w ∈ ws, w < 65536) →
      ws.foldl add (fold k) = fold (k + ws.sum) := by
    intro ws
    induction ws with
    | nil => exact fun _ _ => rfl
    | cons w ws ih =>
        intro k hws
        rw [List.foldl_cons, add_fold k w (hws w List.mem_cons_self),
          ih _ fun w hw => hws w (List.mem_cons_of_mem _ hw), List.sum_cons, Nat.add_assoc]
  have hsum := hstep (words l) 0 (words_lt l)
  rw [Nat.zero_add] at hsum
  exact hsum

/-! ## Checksums -/

/-- The checksum of a number of words. -/
def complement (k : Nat) : Nat := 65535 - fold k

/-- With its checksum a number folds to all ones, also if it is zero. -/
theorem fold_complement (k : Nat) : fold (k + complement k) = 65535 := by
  unfold complement fold
  split <;> split <;> omega

/-- A string with its checksum in place of two zero bytes, and `k` for what is summed with it. -/
theorem fold_checked {front back : List UInt8} (hfront : front.length % 2 = 0) {hi lo : UInt8}
    {k : Nat} (hsum : hi.toNat * 256 + lo.toNat = complement (k + total (front ++ 0 :: 0 :: back))) :
    fold (k + total (front ++ hi :: lo :: back)) = 65535 := by
  have hzero : total (front ++ 0 :: 0 :: back) = total front + total back := by
    rw [total_append hfront, total_pair]
    exact congrArg _ (Nat.zero_add _)
  rw [hzero] at hsum
  have hfull : k + total (front ++ hi :: lo :: back) =
      k + (total front + total back) + complement (k + (total front + total back)) := by
    rw [← hsum, total_append hfront, total_pair]
    omega
  rw [hfull]
  exact fold_complement _

end Checksum
