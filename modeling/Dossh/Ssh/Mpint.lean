import Dossh.Lib.Mpint
import Dossh.Ssh.Agreement

/-!
# The shared secret on the wire

`build_kmpint` drops the zero bytes in front of the secret and puts one back where the first byte
left would read as a sign.  What it writes is the minimal string of the number, so both sides of a
key exchange hash the same bytes, also for the secrets that begin with zeros.
-/

namespace Dossh

/-- The body of the mpint: the secret without the zeros in front, behind one zero if its first byte
has the top bit set. -/
def kmpintBody (raw : List UInt8) : List UInt8 :=
  match raw.dropWhile (· = 0) with
  | [] => []
  | b :: v => if 128 ≤ b.toNat then 0 :: b :: v else b :: v

theorem buildKmpint_body (raw : List UInt8) : buildKmpint raw = putStr (kmpintBody raw) := by
  unfold buildKmpint kmpintBody
  cases raw.dropWhile (· = 0) with
  | nil => rfl
  | cons b v =>
      dsimp only
      by_cases hsign : 128 ≤ b.toNat
      · rw [if_pos hsign, if_pos ((signBit_iff b).mpr hsign)]
      · rw [if_neg hsign, if_neg (mt (signBit_iff b).mp hsign)]

/-- The first byte behind the zeros is not zero. -/
theorem ne_zero_of_dropWhile {raw v : List UInt8} {b : UInt8}
    (h : raw.dropWhile (· = 0) = b :: v) : b ≠ 0 := by
  have hhead := List.head?_dropWhile_not (· = 0) raw
  rw [h] at hhead
  exact of_decide_eq_false hhead

/-- The body stands for the number and is the shortest string that does. -/
theorem kmpintBody_spec (raw : List UInt8) :
    Mpint.signed (kmpintBody raw) = beNat raw ∧ Mpint.Minimal (kmpintBody raw) := by
  rw [← beNat_dropWhile raw]
  unfold kmpintBody
  split
  next hnil =>
    rw [hnil]
    exact ⟨rfl, trivial⟩
  next b v hcons =>
    have hb := ne_zero_of_dropWhile hcons
    rw [hcons]
    split
    next hsign =>
      refine ⟨?_, fun h => ?_, fun h => ?_⟩
      · rw [Mpint.signed_of_small (by decide)]
        exact congrArg Nat.cast (beNat_zero_cons (b :: v))
      · exact absurd h.2 (Nat.not_lt.mpr hsign)
      · exact absurd h.1 (by decide)
    next hsign =>
      refine ⟨Mpint.signed_of_small (Nat.not_le.mp hsign) v, ?_⟩
      cases v with
      | nil => exact hb
      | cons c v =>
          refine ⟨fun h => hb h.1, fun h => ?_⟩
          rw [h.1] at hsign
          exact hsign (by decide)

/-- The body is a byte longer than what is left of the secret at most. -/
theorem length_kmpintBody (raw : List UInt8) : (kmpintBody raw).length ≤ raw.length + 1 := by
  have hle : (raw.dropWhile (· = 0)).length ≤ raw.length := (List.dropWhile_sublist _).length_le
  unfold kmpintBody
  split
  next => exact Nat.zero_le _
  next b v hcons =>
    rw [hcons] at hle
    split
    · exact Nat.succ_le_succ hle
    · exact Nat.le_succ_of_le hle

/-- A zero stands in front exactly if the first byte left has its top bit set. -/
theorem kmpintBody_head (raw : List UInt8) : (kmpintBody raw).head? = some 0 ↔
    128 ≤ ((raw.dropWhile (· = 0)).headD 0).toNat := by
  unfold kmpintBody
  cases hv : raw.dropWhile (· = 0) with
  | nil => simp
  | cons b v =>
      have hb := ne_zero_of_dropWhile hv
      by_cases hsign : 128 ≤ b.toNat
      · simp [hsign]
      · simp [hsign, hb]

/-- The number is zero exactly if there is no body. -/
theorem kmpintBody_nil (raw : List UInt8) : beNat raw = 0 ↔ kmpintBody raw = [] := by
  obtain ⟨hval, hmin⟩ := kmpintBody_spec raw
  constructor
  · intro hzero
    rw [hzero] at hval
    have hempty : Mpint.Minimal [] := trivial
    exact hmin.unique hempty hval
  · intro hnil
    rw [hnil] at hval
    exact Nat.cast_eq_zero.mp hval.symm

/-- For every shared secret `build_kmpint` writes the one mpint encoding of the number, behind its
length. -/
theorem kmpint_canonical (raw : List UInt8) (hraw : raw.length = 32) :
    ∃ body, buildKmpint raw = be32 body.length ++ body ∧
      Mpint.signed body = beNat raw ∧ Mpint.Minimal body ∧
      (∀ other, Mpint.Minimal other → Mpint.signed other = beNat raw → other = body) ∧
      (body = raw.dropWhile (· = 0) ∨ body = 0 :: raw.dropWhile (· = 0)) ∧
      (body.head? = some 0 ↔ 128 ≤ ((raw.dropWhile (· = 0)).headD 0).toNat) ∧
      (beNat raw = 0 ↔ body = []) ∧
      (buildKmpint raw).length = 4 + body.length ∧ (buildKmpint raw).length ≤ 37 := by
  obtain ⟨hval, hmin⟩ := kmpintBody_spec raw
  have hlen : (buildKmpint raw).length = 4 + (kmpintBody raw).length := by
    rw [buildKmpint_body, length_putStr]
  have hbound := length_kmpintBody raw
  refine ⟨kmpintBody raw, buildKmpint_body raw, hval, hmin,
    fun other hother heq => hother.unique hmin (heq.trans hval.symm), ?_, kmpintBody_head raw,
    kmpintBody_nil raw, hlen, by omega⟩
  unfold kmpintBody
  split
  next hnil => exact .inl hnil.symm
  next b v hcons =>
    rw [hcons]
    split
    · exact .inr rfl
    · exact .inl rfl

theorem kmpint_canonical_zeros :
    ∃ body, buildKmpint (List.replicate 2 0 ++ List.replicate 30 255) = be32 body.length ++ body ∧
      body.length = 31 := by
  obtain ⟨body, heq, -, -, -, -, -, -, hlen, -⟩ :=
    kmpint_canonical (List.replicate 2 0 ++ List.replicate 30 255) (by decide)
  have hall : (buildKmpint (List.replicate 2 0 ++ List.replicate 30 255)).length = 35 := by
    decide +kernel
  exact ⟨body, heq, by omega⟩

end Dossh
