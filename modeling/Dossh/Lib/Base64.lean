import Mathlib.Data.List.Basic

/-!
# Base64

The encoding of byte strings by digits of six bits: `text` without padding and `encode` with it.
`Spells` is the relation of a reader that ignores the bits of the last digit that belong to no
byte.  A text spells one byte string at most, and where no bits are left over it is the canonical
text.
-/

namespace Base64

/-! ## Digits -/

/-- The character of a digit. -/
def digit (v : Nat) : UInt8 :=
  if v < 26 then UInt8.ofNat (65 + v)
  else if v < 52 then UInt8.ofNat (97 + (v - 26))
  else if v < 62 then UInt8.ofNat (48 + (v - 52))
  else if v = 62 then 43
  else 47

/-! ## Texts -/

/-- The digits of a byte string, without padding. -/
def text : List UInt8 → List UInt8
  | [] => []
  | [a] => [digit (a.toNat / 4), digit (a.toNat % 4 * 16)]
  | [a, b] => [digit (a.toNat / 4), digit (a.toNat % 4 * 16 + b.toNat / 16),
      digit (b.toNat % 16 * 4)]
  | a :: b :: c :: l => digit (a.toNat / 4) :: digit (a.toNat % 4 * 16 + b.toNat / 16) ::
      digit (b.toNat % 16 * 4 + c.toNat / 64) :: digit (c.toNat % 64) :: text l

/-- The padding behind the text of `n` bytes. -/
def padding (n : Nat) : List UInt8 := List.replicate ((3 - n % 3) % 3) 61

/-- The padded text. -/
def encode (l : List UInt8) : List UInt8 := text l ++ padding l.length

/-- Whole groups of three bytes need no padding. -/
theorem encode_eq_text {l : List UInt8} (h : l.length % 3 = 0) : encode l = text l := by
  rw [encode, padding, h]
  exact List.append_nil _

/-- The text spells the bytes: `z` are the bits of the last digit that belong to no byte. -/
inductive Spells : List UInt8 → List UInt8 → Prop where
  | nil : Spells [] []
  | one (a : UInt8) {z : Nat} (hz : z < 16) :
      Spells [digit (a.toNat / 4), digit (a.toNat % 4 * 16 + z)] [a]
  | two (a b : UInt8) {z : Nat} (hz : z < 4) :
      Spells [digit (a.toNat / 4), digit (a.toNat % 4 * 16 + b.toNat / 16),
        digit (b.toNat % 16 * 4 + z)] [a, b]
  | group (a b c : UInt8) {t l : List UInt8} (h : Spells t l) :
      Spells (digit (a.toNat / 4) :: digit (a.toNat % 4 * 16 + b.toNat / 16) ::
        digit (b.toNat % 16 * 4 + c.toNat / 64) :: digit (c.toNat % 64) :: t) (a :: b :: c :: l)

/-- The text of a byte string spells it. -/
theorem Spells.text : ∀ l : List UInt8, Spells (text l) l
  | [] => .nil
  | [a] => .one a (z := 0) (by decide)
  | [a, b] => .two a b (z := 0) (by decide)
  | a :: b :: c :: l => .group a b c (Spells.text l)

/-- Where no bits are left over only the text itself spells the bytes. -/
theorem Spells.canonical {t l : List UInt8} (h : Spells t l) (hl : l.length % 3 = 0) :
    t = Base64.text l := by
  induction h with
  | nil => rfl
  | one a hz => exact absurd hl (by simp)
  | two a b hz => exact absurd hl (by simp)
  | @group a b c t l h ih =>
      have hl' : (l.length + 3) % 3 = 0 := hl
      rw [Nat.add_mod_right] at hl'
      rw [Base64.text, ih hl']

/-- Every character of a spelling is a digit. -/
theorem Spells.digits {t l : List UInt8} (h : Spells t l) : ∀ ch ∈ t, ∃ v < 64, ch = digit v := by
  have hbyte : ∀ a : UInt8, a.toNat / 4 < 64 := fun a => by
    have := a.toNat_lt
    omega
  have hmid : ∀ a b : UInt8, a.toNat % 4 * 16 + b.toNat / 16 < 64 := fun a b => by
    have := b.toNat_lt
    omega
  induction h with
  | nil => simp
  | @one a z hz =>
      have hlast : a.toNat % 4 * 16 + z < 64 := by omega
      simp only [List.forall_mem_cons]
      exact ⟨⟨_, hbyte a, rfl⟩, ⟨_, hlast, rfl⟩, List.forall_mem_nil _⟩
  | @two a b z hz =>
      have hlast : b.toNat % 16 * 4 + z < 64 := by omega
      simp only [List.forall_mem_cons]
      exact ⟨⟨_, hbyte a, rfl⟩, ⟨_, hmid a b, rfl⟩, ⟨_, hlast, rfl⟩, List.forall_mem_nil _⟩
  | group a b c h ih =>
      have hthird : b.toNat % 16 * 4 + c.toNat / 64 < 64 := by
        have := c.toNat_lt
        omega
      simp only [List.forall_mem_cons]
      exact ⟨⟨_, hbyte a, rfl⟩, ⟨_, hmid a b, rfl⟩, ⟨_, hthird, rfl⟩,
        ⟨_, Nat.mod_lt _ (by decide), rfl⟩, ih⟩

/-- Only the empty text spells nothing. -/
theorem Spells.ne_nil {t l : List UInt8} (h : Spells t l) (hl : l ≠ []) : t ≠ [] := by
  cases h with
  | nil => exact absurd rfl hl
  | one | two | group => exact List.cons_ne_nil _ _

/-! ## Bytes from digits -/

section

variable {c₀ c₁ c₂ c₃ : Nat}

/-- The bytes that four digits are put together to. -/
theorem byte_of_digits (h₀ : c₀ < 64) (h₁ : c₁ < 64) (h₂ : c₂ < 64) (h₃ : c₃ < 64) :
    (UInt8.ofNat (c₀ * 4 + c₁ / 16)).toNat = c₀ * 4 + c₁ / 16 ∧
    (UInt8.ofNat (c₁ * 16 + c₂ / 4)).toNat = c₁ % 16 * 16 + c₂ / 4 ∧
    (UInt8.ofNat (c₂ * 64 + c₃)).toNat = c₂ % 4 * 64 + c₃ := by
  simp only [UInt8.toNat_ofNat']
  omega

theorem Spells.of_two (h₀ : c₀ < 64) (h₁ : c₁ < 64) :
    Spells [digit c₀, digit c₁] [UInt8.ofNat (c₀ * 4 + c₁ / 16)] := by
  obtain ⟨ha, -, -⟩ := byte_of_digits h₀ h₁ h₁ h₁
  have hz : c₁ % 16 < 16 := Nat.mod_lt _ (by decide)
  have hspells := Spells.one (UInt8.ofNat (c₀ * 4 + c₁ / 16)) hz
  rw [ha] at hspells
  have hfirst : (c₀ * 4 + c₁ / 16) / 4 = c₀ := by omega
  have hsecond : (c₀ * 4 + c₁ / 16) % 4 * 16 + c₁ % 16 = c₁ := by omega
  rwa [hfirst, hsecond] at hspells

theorem Spells.of_three (h₀ : c₀ < 64) (h₁ : c₁ < 64) (h₂ : c₂ < 64) :
    Spells [digit c₀, digit c₁, digit c₂]
      [UInt8.ofNat (c₀ * 4 + c₁ / 16), UInt8.ofNat (c₁ * 16 + c₂ / 4)] := by
  obtain ⟨ha, hb, -⟩ := byte_of_digits h₀ h₁ h₂ h₂
  have hz : c₂ % 4 < 4 := Nat.mod_lt _ (by decide)
  have hspells := Spells.two (UInt8.ofNat (c₀ * 4 + c₁ / 16)) (UInt8.ofNat (c₁ * 16 + c₂ / 4)) hz
  rw [ha, hb] at hspells
  have hfirst : (c₀ * 4 + c₁ / 16) / 4 = c₀ := by omega
  have hsecond : (c₀ * 4 + c₁ / 16) % 4 * 16 + (c₁ % 16 * 16 + c₂ / 4) / 16 = c₁ := by omega
  have hthird : (c₁ % 16 * 16 + c₂ / 4) % 16 * 4 + c₂ % 4 = c₂ := by omega
  rwa [hfirst, hsecond, hthird] at hspells

theorem Spells.of_four (h₀ : c₀ < 64) (h₁ : c₁ < 64) (h₂ : c₂ < 64) (h₃ : c₃ < 64)
    {t l : List UInt8} (h : Spells t l) :
    Spells (digit c₀ :: digit c₁ :: digit c₂ :: digit c₃ :: t)
      (UInt8.ofNat (c₀ * 4 + c₁ / 16) :: UInt8.ofNat (c₁ * 16 + c₂ / 4) ::
        UInt8.ofNat (c₂ * 64 + c₃) :: l) := by
  obtain ⟨ha, hb, hc⟩ := byte_of_digits h₀ h₁ h₂ h₃
  have hspells := Spells.group (UInt8.ofNat (c₀ * 4 + c₁ / 16)) (UInt8.ofNat (c₁ * 16 + c₂ / 4))
    (UInt8.ofNat (c₂ * 64 + c₃)) h
  rw [ha, hb, hc] at hspells
  have hfirst : (c₀ * 4 + c₁ / 16) / 4 = c₀ := by omega
  have hsecond : (c₀ * 4 + c₁ / 16) % 4 * 16 + (c₁ % 16 * 16 + c₂ / 4) / 16 = c₁ := by omega
  have hthird : (c₁ % 16 * 16 + c₂ / 4) % 16 * 4 + (c₂ % 4 * 64 + c₃) / 64 = c₂ := by omega
  have hfourth : (c₂ % 4 * 64 + c₃) % 64 = c₃ := by omega
  rwa [hfirst, hsecond, hthird, hfourth] at hspells

end

end Base64
