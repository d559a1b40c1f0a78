import Mathlib.Data.Nat.Digits.Defs
import Mathlib.Tactic.Linarith

/-!
# Integers as byte strings

An integer of any size is written in two's complement, most significant byte first.  `signed` reads
such a string.  A string is `Minimal` if its first byte is needed: it does not repeat the sign that
the second byte shows, and zero has no bytes at all.  The first byte of a minimal string takes the
number out of the range of the shorter strings, so a number has one minimal string only.
-/

namespace Mpint

/-! ## Values -/

/-- The bytes as a number without a sign. -/
def unsigned (l : List UInt8) : Nat := Nat.ofDigits 256 (l.reverse.map UInt8.toNat)

/-- The first byte, which carries the sign. -/
def signedByte (b : UInt8) : Int := if b.toNat < 128 then b.toNat else b.toNat - 256

/-- The bytes as a number in two's complement. -/
def signed : List UInt8 → Int
  | [] => 0
  | b :: l => signedByte b * 256 ^ l.length + unsigned l

/-- No shorter string has the same value. -/
def Minimal : List UInt8 → Prop
  | [] => True
  | [b] => b ≠ 0
  | b :: c :: _ => ¬ (b = 0 ∧ c.toNat < 128) ∧ ¬ (b = 255 ∧ 128 ≤ c.toNat)

theorem unsigned_cons (b : UInt8) (l : List UInt8) :
    unsigned (b :: l) = b.toNat * 256 ^ l.length + unsigned l := by
  rw [unsigned, List.reverse_cons, List.map_append, Nat.ofDigits_append, List.length_map,
    List.length_reverse, List.map_singleton, Nat.ofDigits_singleton, Nat.add_comm, Nat.mul_comm]
  rfl

theorem unsigned_lt (l : List UInt8) : unsigned l < 256 ^ l.length := by
  have hlt : unsigned l < 256 ^ (l.reverse.map UInt8.toNat).length := by
    refine Nat.ofDigits_lt_base_pow_length (by decide) fun d hd => ?_
    obtain ⟨b, -, rfl⟩ := List.mem_map.mp hd
    exact b.toNat_lt
  rwa [List.length_map, List.length_reverse] at hlt

/-- Strings of one length are told apart by their values. -/
theorem unsigned_inj : ∀ {l l' : List UInt8}, l.length = l'.length → unsigned l = unsigned l' →
    l = l'
  | [], [], _, _ => rfl
  | b :: l, b' :: l', hlen, h => by
      have hlen' : l.length = l'.length := Nat.succ.inj hlen
      have hlt := unsigned_lt l
      have hlt' := unsigned_lt l'
      rw [unsigned_cons, unsigned_cons, ← hlen'] at h
      rw [← hlen'] at hlt'
      have hpos : 0 < 256 ^ l.length := Nat.pow_pos (by decide)
      have hhead : b.toNat = b'.toNat := by
        have hdiv := congrArg (· / 256 ^ l.length) h
        simp only [Nat.mul_add_div hpos, Nat.mul_comm _ (256 ^ l.length)] at hdiv
        rwa [Nat.div_eq_of_lt hlt, Nat.div_eq_of_lt hlt'] at hdiv
      rw [hhead] at h
      rw [UInt8.toNat_inj.mp hhead, unsigned_inj hlen' (Nat.add_left_cancel h)]

/-- A number without a sign bit is read as it is. -/
theorem signed_of_small {b : UInt8} (h : b.toNat < 128) (l : List UInt8) :
    signed (b :: l) = unsigned (b :: l) := by
  rw [signed, signedByte, if_pos h, unsigned_cons]
  push_cast
  rfl

/-! ## Ranges -/

/-- The numbers of strings of `n` bytes. -/
def InRange (v : Int) : Nat → Prop
  | 0 => v = 0
  | n + 1 => -(128 * 256 ^ n) ≤ v ∧ v < 128 * 256 ^ n

theorem signedByte_range (b : UInt8) : -128 ≤ signedByte b ∧ signedByte b ≤ 127 := by
  have hlt := b.toNat_lt
  unfold signedByte
  split <;> omega

theorem signed_inRange : ∀ l : List UInt8, InRange (signed l) l.length
  | [] => rfl
  | b :: l => by
      obtain ⟨hlow, hhigh⟩ := signedByte_range b
      have hlt : (unsigned l : Int) < 256 ^ l.length := by exact_mod_cast unsigned_lt l
      have hnonneg : (0 : Int) ≤ unsigned l := Int.natCast_nonneg _
      rw [List.length_cons, InRange, signed]
      generalize (256 : Int) ^ l.length = p at *
      constructor <;> nlinarith

theorem InRange.mono {v : Int} {m n : Nat} (hle : m ≤ n) (h : InRange v m) : InRange v n := by
  induction hle with
  | refl => exact h
  | @step n hle ih =>
      have hpos : (0 : Int) < 256 ^ n := Int.pow_pos (by decide)
      cases n with
      | zero =>
          have hv : v = 0 := ih
          rw [hv]
          exact ⟨by decide, by decide⟩
      | succ n =>
          obtain ⟨hlow, hhigh⟩ := ih
          have hpos' : (0 : Int) < 256 ^ n := Int.pow_pos (by decide)
          rw [InRange, pow_succ]
          constructor <;> linarith

theorem signedByte_inj {b b' : UInt8} (h : signedByte b = signedByte b') : b = b' := by
  have hlt := b.toNat_lt
  have hlt' := b'.toNat_lt
  have hnat : b.toNat = b'.toNat := by
    unfold signedByte at h
    split at h <;> split at h <;> omega
  exact UInt8.toNat_inj.mp hnat

/-- A multiple with a remainder, compared with another multiple. -/
theorem le_of_multiple {k m p u u' : Int} (hp : 0 < p) (hu : 0 ≤ u) (hu' : u' < p)
    (h : k * p + u ≤ m * p + u') : k ≤ m := by
  by_contra hlt
  have hle : (m + 1) * p ≤ k * p := Int.mul_le_mul_of_nonneg_right (by omega) hp.le
  linarith

/-- A minimal string needs its first byte. -/
theorem Minimal.not_inRange : ∀ {b : UInt8} {l : List UInt8}, Minimal (b :: l) →
    ¬ InRange (signed (b :: l)) l.length
  | b, [], h => by
      intro hzero
      have hbyte : signedByte b = signedByte 0 := by
        have hval : signedByte b * 256 ^ 0 + (unsigned [] : Int) = 0 := hzero
        have hnil : unsigned [] = 0 := rfl
        have hsign : signedByte 0 = 0 := rfl
        rw [hnil] at hval
        omega
      exact h (signedByte_inj hbyte)
  | b, c :: l, h => by
      rintro ⟨hlow, hhigh⟩
      have hu : (0 : Int) ≤ unsigned l := Int.natCast_nonneg _
      have hu' : (unsigned l : Int) < 256 ^ l.length := by exact_mod_cast unsigned_lt l
      have hval : signed (b :: c :: l) =
          (signedByte b * 256 + c.toNat) * 256 ^ l.length + unsigned l := by
        rw [signed, unsigned_cons, List.length_cons]
        push_cast
        ring
      rw [hval] at hlow hhigh
      generalize (256 : Int) ^ l.length = p at *
      have hp : 0 < p := by omega
      have hge : -128 ≤ signedByte b * 256 + c.toNat :=
        le_of_multiple hp (Int.le_refl 0) hu' (by linarith)
      have hle : signedByte b * 256 + c.toNat ≤ 127 :=
        le_of_multiple hp hu (by omega : p - 1 < p) (by linarith)
      have hc := c.toNat_lt
      have hones : signedByte 255 = -1 := rfl
      have hzero : signedByte 0 = 0 := rfl
      rcases lt_or_ge (signedByte b) 0 with hneg | hpos
      · exact h.2 ⟨signedByte_inj (by omega), by omega⟩
      · exact h.1 ⟨signedByte_inj (by omega), by omega⟩

/-- Strings of one length are told apart by their signed values, too. -/
theorem signed_inj : ∀ {l l' : List UInt8}, l.length = l'.length → signed l = signed l' → l = l'
  | [], [], _, _ => rfl
  | b :: l, b' :: l', hlen, h => by
      have hlen' : l.length = l'.length := Nat.succ.inj hlen
      have hu : (0 : Int) ≤ unsigned l := Int.natCast_nonneg _
      have hu' : (0 : Int) ≤ unsigned l' := Int.natCast_nonneg _
      have hlt : (unsigned l : Int) < 256 ^ l.length := by exact_mod_cast unsigned_lt l
      have hlt' : (unsigned l' : Int) < 256 ^ l.length := by
        rw [hlen']
        exact_mod_cast unsigned_lt l'
      have hp : (0 : Int) < 256 ^ l.length := Int.pow_pos (by decide)
      rw [signed, signed, ← hlen'] at h
      have hhead : signedByte b = signedByte b' :=
        Int.le_antisymm (le_of_multiple hp hu hlt' h.le) (le_of_multiple hp hu' hlt h.ge)
      rw [hhead] at h
      rw [signedByte_inj hhead, unsigned_inj hlen' (by exact_mod_cast Int.add_left_cancel h)]

/-- A string that is minimal is not longer than another one with its value. -/
theorem Minimal.length_le {l l' : List UInt8} (h : Minimal l) (heq : signed l = signed l') :
    l.length ≤ l'.length := by
  by_contra hlt
  cases l with
  | nil => exact hlt (Nat.zero_le _)
  | cons b l =>
      refine h.not_inRange ?_
      rw [heq]
      exact (signed_inRange l').mono (Nat.le_of_lt_succ (Nat.not_le.mp hlt))

/-- A number has one minimal string. -/
theorem Minimal.unique {l l' : List UInt8} (h : Minimal l) (h' : Minimal l')
    (heq : signed l = signed l') : l = l' :=
  signed_inj (Nat.le_antisymm (h.length_le heq) (h'.length_le heq.symm)) heq

end Mpint
