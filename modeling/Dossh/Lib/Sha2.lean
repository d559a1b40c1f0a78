import Dossh.Lib.Blocks
import Mathlib.Data.Nat.NthRoot.Defs
import Mathlib.Data.Nat.Prime.Basic

/-!
# SHA-256, as the standard has it

A message is padded to complete blocks of 64 bytes, and each block is compressed into a state of
eight words.  The constants are the first 32 bits of the fractional parts of square and cube roots
of primes.  The length of the message in bits is written with 64 bits, so from `2^64` bits on it is
taken modulo `2^64`.
-/

namespace Sha2

/-! ## Functions and constants -/

/-- The eight working variables, and the eight words of a hash value. -/
structure State where
  a : BitVec 32
  b : BitVec 32
  c : BitVec 32
  d : BitVec 32
  e : BitVec 32
  f : BitVec 32
  g : BitVec 32
  h : BitVec 32
deriving DecidableEq

def State.words (s : State) : List (BitVec 32) := [s.a, s.b, s.c, s.d, s.e, s.f, s.g, s.h]

def Ch (x y z : BitVec 32) : BitVec 32 := (x &&& y) ^^^ (~~~x &&& z)

def Maj (x y z : BitVec 32) : BitVec 32 := (x &&& y) ^^^ (x &&& z) ^^^ (y &&& z)

def bigSigma0 (x : BitVec 32) : BitVec 32 := x.rotateRight 2 ^^^ x.rotateRight 13 ^^^ x.rotateRight 22

def bigSigma1 (x : BitVec 32) : BitVec 32 := x.rotateRight 6 ^^^ x.rotateRight 11 ^^^ x.rotateRight 25

def smallSigma0 (x : BitVec 32) : BitVec 32 := x.rotateRight 7 ^^^ x.rotateRight 18 ^^^ x >>> 3

def smallSigma1 (x : BitVec 32) : BitVec 32 := x.rotateRight 17 ^^^ x.rotateRight 19 ^^^ x >>> 10

/-- The first sixty-four primes. -/
def primes : List Nat := (List.range 312).filter fun p => 2 ≤ p ∧ ∀ m < p, m ∣ p → m = 1

theorem mem_primes {p : Nat} : p ∈ primes ↔ p < 312 ∧ p.Prime := by
  simp [primes, Nat.prime_def_lt]

/-- The first 32 bits behind the point of the `k`-th root of `p`. -/
def rootBits (k p : Nat) : BitVec 32 := BitVec.ofNat 32 (Nat.nthRoot k (p * 2 ^ (32 * k)))

/-- The constants of the rounds. -/
def K (t : Nat) : BitVec 32 := rootBits 3 (primes.getD t 0)

/-- The first hash value. -/
def H0 : State where
  a := rootBits 2 2
  b := rootBits 2 3
  c := rootBits 2 5
  d := rootBits 2 7
  e := rootBits 2 11
  f := rootBits 2 13
  g := rootBits 2 17
  h := rootBits 2 19

/-! ## One block -/

/-- The message schedule of a block with the words `M 0` to `M 15`. -/
def W (M : Nat → BitVec 32) (t : Nat) : BitVec 32 :=
  if t < 16 then M t
  else smallSigma1 (W M (t - 2)) + W M (t - 7) + smallSigma0 (W M (t - 15)) + W M (t - 16)

theorem W_first (M : Nat → BitVec 32) {t : Nat} (h : t < 16) : W M t = M t := by
  rw [W, if_pos h]

theorem W_next (M : Nat → BitVec 32) {t : Nat} (h : ¬ t < 16) :
    W M t = smallSigma1 (W M (t - 2)) + W M (t - 7) + smallSigma0 (W M (t - 15)) + W M (t - 16) := by
  conv => lhs; rw [W, if_neg h]

def round (s : State) (k w : BitVec 32) : State :=
  let t₁ := s.h + bigSigma1 s.e + Ch s.e s.f s.g + k + w
  let t₂ := bigSigma0 s.a + Maj s.a s.b s.c
  ⟨t₁ + t₂, s.a, s.b, s.c, s.d + t₁, s.e, s.f, s.g⟩

def State.add (s t : State) : State :=
  ⟨s.a + t.a, s.b + t.b, s.c + t.c, s.d + t.d, s.e + t.e, s.f + t.f, s.g + t.g, s.h + t.h⟩

/-- The `t`-th word of a block. -/
def word (block : List UInt8) (t : Nat) : BitVec 32 :=
  let byte := fun k => (block.getD (4 * t + k) 0).toNat
  BitVec.ofNat 32 (byte 0 * 2 ^ 24 + byte 1 * 2 ^ 16 + byte 2 * 2 ^ 8 + byte 3)

/-- The sixty-four rounds for one block. -/
def compress (s : State) (block : List UInt8) : State :=
  s.add ((List.range 64).foldl (fun v t => round v (K t) (W (word block) t)) s)

/-! ## A message -/

/-- The number of zeros behind the bit that ends the message. -/
def zeros (len : Nat) : Nat := (119 - len % 64) % 64

/-- A length in bits as eight bytes. -/
def lengthBytes (len : Nat) : List UInt8 :=
  (List.range 8).map fun k => UInt8.ofNat (8 * len / 256 ^ (7 - k))

def padding (len : Nat) : List UInt8 := 0x80 :: List.replicate (zeros len) 0 ++ lengthBytes len

def pad (msg : List UInt8) : List UInt8 := msg ++ padding msg.length

@[simp] theorem length_lengthBytes (len : Nat) : (lengthBytes len).length = 8 := by
  simp [lengthBytes]

theorem length_padding (len : Nat) : (padding len).length = zeros len + 9 := by
  simp [padding]

/-- The padded message consists of complete blocks. -/
theorem dvd_length_pad (msg : List UInt8) : 64 ∣ (pad msg).length := by
  have hlen : (pad msg).length = msg.length + (zeros msg.length + 9) := by
    rw [pad, List.length_append, length_padding]
  rw [hlen, zeros]
  omega

/-- A word as bytes. -/
def bytes (x : BitVec 32) : List UInt8 :=
  [24, 16, 8, 0].map fun k => UInt8.ofNat (x.toNat / 2 ^ k)

/-- The hash of a message. -/
def hash (msg : List UInt8) : List UInt8 :=
  (Blocks.work 64 compress H0 (pad msg)).words.flatMap bytes

theorem length_hash (msg : List UInt8) : (hash msg).length = 32 := by
  simp [hash, State.words, bytes]

end Sha2
