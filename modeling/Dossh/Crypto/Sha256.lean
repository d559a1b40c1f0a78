import Dossh.Lib.Sha2
import Dossh.Machine
import Mathlib.Data.List.GetD

/-!
# SHA-256

`sha256.c` hashes a message that comes in pieces.  It keeps the length of the message in bits as
two words and collects the bytes of a block in `data`.  The digest of the pieces is the hash of
their concatenation as the standard defines it, for messages of any length (`sha256_streams`).

The invariant is that the context was fed a message (`Sha256Ctx.Fed`): the state is that after the
complete blocks, `data` begins with the rest, and the two words count the bits of the blocks.  What
lies behind the rest in `data` comes from earlier blocks, or from the stack, and is overwritten
before it is read.
-/

namespace Dossh

/-! ## The code -/

/-- `sha256_ctx`.  The words of `state` go by the names they have in `sha256_transform`. -/
structure Sha256Ctx where
  data : Nat → UInt8
  datalen : Nat
  bitlenLo : BitVec 32
  bitlenHi : BitVec 32
  state : Sha2.State

namespace Sha256

/-- `ROTR`. -/
def ROTR (x : BitVec 32) (n : Nat) : BitVec 32 := x >>> n ||| x <<< (32 - n)

def CH (x y z : BitVec 32) : BitVec 32 := (x &&& y) ^^^ (~~~x &&& z)

def MAJ (x y z : BitVec 32) : BitVec 32 := (x &&& y) ^^^ (x &&& z) ^^^ (y &&& z)

def EP0 (x : BitVec 32) : BitVec 32 := ROTR x 2 ^^^ ROTR x 13 ^^^ ROTR x 22

def EP1 (x : BitVec 32) : BitVec 32 := ROTR x 6 ^^^ ROTR x 11 ^^^ ROTR x 25

def SIG0 (x : BitVec 32) : BitVec 32 := ROTR x 7 ^^^ ROTR x 18 ^^^ x >>> 3

def SIG1 (x : BitVec 32) : BitVec 32 := ROTR x 17 ^^^ ROTR x 19 ^^^ x >>> 10

/-- The table `K`. -/
def K : List (BitVec 32) := [
  0x428a2f98, 0x71374491, 0xb5c0fbcf, 0xe9b5dba5, 0x3956c25b, 0x59f111f1, 0x923f82a4, 0xab1c5ed5,
  0xd807aa98, 0x12835b01, 0x243185be, 0x550c7dc3, 0x72be5d74, 0x80deb1fe, 0x9bdc06a7, 0xc19bf174,
  0xe49b69c1, 0xefbe4786, 0x0fc19dc6, 0x240ca1cc, 0x2de92c6f, 0x4a7484aa, 0x5cb0a9dc, 0x76f988da,
  0x983e5152, 0xa831c66d, 0xb00327c8, 0xbf597fc7, 0xc6e00bf3, 0xd5a79147, 0x06ca6351, 0x14292967,
  0x27b70a85, 0x2e1b2138, 0x4d2c6dfc, 0x53380d13, 0x650a7354, 0x766a0abb, 0x81c2c92e, 0x92722c85,
  0xa2bfe8a1, 0xa81a664b, 0xc24b8b70, 0xc76c51a3, 0xd192e819, 0xd6990624, 0xf40e3585, 0x106aa070,
  0x19a4c116, 0x1e376c08, 0x2748774c, 0x34b0bcb5, 0x391c0cb3, 0x4ed8aa4a, 0x5b9cca4f, 0x682e6ff3,
  0x748f82ee, 0x78a5636f, 0x84c87814, 0x8cc70208, 0x90befffa, 0xa4506ceb, 0xbef9a3f7, 0xc67178f2]

/-- A byte as a word. -/
def byteWord (b : UInt8) : BitVec 32 := b.toBitVec.setWidth 32

/-- The word at offset `j` of a block. -/
def loadWord (data : Nat → UInt8) (j : Nat) : BitVec 32 :=
  byteWord (data j) <<< 24 ||| byteWord (data (j + 1)) <<< 16 ||| byteWord (data (j + 2)) <<< 8 |||
    byteWord (data (j + 3))

/-- The second loop that fills `m`, for `k` more words. -/
def extend : Nat → List (BitVec 32) → List (BitVec 32)
  | 0, m => m
  | k + 1, m =>
      let i := m.length
      extend k (m ++ [SIG1 (m.getD (i - 2) 0) + m.getD (i - 7) 0 + SIG0 (m.getD (i - 15) 0) +
        m.getD (i - 16) 0])

/-- The words `m[0]` to `m[63]`. -/
def schedule (data : Nat → UInt8) : List (BitVec 32) :=
  extend 48 ((List.range 16).map fun i => loadWord data (4 * i))

/-- The body of the loop over the rounds. -/
def round (s : Sha2.State) (k m : BitVec 32) : Sha2.State :=
  let t1 := s.h + EP1 s.e + CH s.e s.f s.g + k + m
  let t2 := EP0 s.a + MAJ s.a s.b s.c
  { a := t1 + t2, b := s.a, c := s.b, d := s.c, e := s.d + t1, f := s.e, g := s.f, h := s.g }

end Sha256

open Sha256

/-- `sha256_transform`, as far as it changes `ctx->state`. -/
def sha256Transform (s : Sha2.State) (data : Nat → UInt8) : Sha2.State :=
  let m := schedule data
  s.add ((List.range 64).foldl (fun t i => round t (K.getD i 0) (m.getD i 0)) s)

/-- The first value of `ctx->state`. -/
def sha256Iv : Sha2.State where
  a := 0x6a09e667
  b := 0xbb67ae85
  c := 0x3c6ef372
  d := 0xa54ff53a
  e := 0x510e527f
  f := 0x9b05688c
  g := 0x1f83d9ab
  h := 0x5be0cd19

/-- `sha256_init`, which leaves in `data` what is there. -/
def sha256Init (data : Nat → UInt8) : Sha256Ctx :=
  { data := data, datalen := 0, bitlenLo := 0, bitlenHi := 0, state := sha256Iv }

/-- `sha256_addlen`. -/
def sha256Addlen (ctx : Sha256Ctx) (bytes : Nat) : Sha256Ctx :=
  let add := BitVec.ofNat 32 bytes <<< 3
  let lo := ctx.bitlenLo + add
  { ctx with
    bitlenLo := lo, bitlenHi := if lo < ctx.bitlenLo then ctx.bitlenHi + 1 else ctx.bitlenHi }

/-- The body of the loop of `sha256_update`. -/
def sha256Byte (ctx : Sha256Ctx) (b : UInt8) : Sha256Ctx :=
  let ctx := { ctx with
    data := overlay ctx.data ctx.datalen [b], datalen := ctx.datalen + 1 }
  if ctx.datalen = 64 then
    let ctx := sha256Addlen { ctx with state := sha256Transform ctx.state ctx.data } 64
    { ctx with datalen := 0 }
  else ctx

/-- `sha256_update`. -/
def sha256Update (ctx : Sha256Ctx) (data : List UInt8) : Sha256Ctx := data.foldl sha256Byte ctx

/-- The bytes of a word, the highest first. -/
def sha256Bytes (x : BitVec 32) : List UInt8 :=
  [24, 16, 8, 0].map fun k => UInt8.ofBitVec ((x >>> k).setWidth 8)

/-- `sha256_final`. -/
def sha256Final (ctx : Sha256Ctx) : List UInt8 :=
  let i := ctx.datalen
  let ctx := sha256Addlen ctx ctx.datalen
  let ctx :=
    if i < 56 then
      { ctx with data := overlay (overlay ctx.data i [0x80]) (i + 1) (List.replicate (55 - i) 0) }
    else
      let data := overlay (overlay ctx.data i [0x80]) (i + 1) (List.replicate (63 - i) 0)
      { ctx with
        state := sha256Transform ctx.state data, data := overlay data 0 (List.replicate 56 0) }
  let data := overlay (overlay ctx.data 56 (sha256Bytes ctx.bitlenHi)) 60 (sha256Bytes ctx.bitlenLo)
  (sha256Transform ctx.state data).words.flatMap sha256Bytes

/-- `sha256`, with what lies on the stack. -/
def sha256 (garbage : Nat → UInt8) (data : List UInt8) : List UInt8 :=
  sha256Final (sha256Update (sha256Init garbage) data)

/-! ## One block -/

namespace Sha256

theorem SIG0_eq (x : BitVec 32) : SIG0 x = Sha2.smallSigma0 x := rfl

theorem SIG1_eq (x : BitVec 32) : SIG1 x = Sha2.smallSigma1 x := rfl

theorem round_eq (s : Sha2.State) (k m : BitVec 32) : round s k m = Sha2.round s k m := rfl

/-- The table holds the cube roots of the first sixty-four primes. -/
theorem K_eq {t : Nat} (h : t < 64) : K.getD t 0 = Sha2.K t := by
  have htable : K = Sha2.primes.map (Sha2.rootBits 3) := by decide +kernel
  have hlen : t < Sha2.primes.length := by
    have hmap := congrArg List.length htable
    rw [List.length_map] at hmap
    rw [← hmap]
    exact h
  rw [htable, Sha2.K, List.getD_eq_getElem?_getD, List.getD_eq_getElem?_getD, List.getElem?_map,
    List.getElem?_eq_getElem hlen]
  rfl

theorem iv_eq : sha256Iv = Sha2.H0 := by decide +kernel

theorem toNat_byteWord (b : UInt8) : (byteWord b).toNat = b.toNat := by
  have hb := b.toNat_lt
  rw [byteWord, BitVec.toNat_setWidth, Nat.mod_eq_of_lt]
  · rfl
  · show b.toNat < 2 ^ 32
    omega

theorem loadWord_eq (data : Nat → UInt8) (j : Nat) :
    loadWord data j = BitVec.ofNat 32 (rd32 data j) := by
  have h0 := (data j).toNat_lt
  have h1 := (data (j + 1)).toNat_lt
  have h2 := (data (j + 2)).toNat_lt
  have h3 := (data (j + 3)).toNat_lt
  have hor : ∀ {x y : Nat} (k : Nat), y < 2 ^ k → 2 ^ k * x ||| y = 2 ^ k * x + y :=
    fun k h => (Nat.two_pow_add_eq_or_of_lt h _).symm
  refine BitVec.eq_of_toNat_eq ?_
  simp only [loadWord, BitVec.toNat_or, BitVec.toNat_shiftLeft, toNat_byteWord, Nat.shiftLeft_eq,
    BitVec.toNat_ofNat, rd32]
  generalize (data j).toNat = x0 at *
  generalize (data (j + 1)).toNat = x1 at *
  generalize (data (j + 2)).toNat = x2 at *
  generalize (data (j + 3)).toNat = x3 at *
  rw [Nat.mod_eq_of_lt (a := x0 * _) (by omega), Nat.mod_eq_of_lt (a := x1 * _) (by omega),
    Nat.mod_eq_of_lt (a := x2 * _) (by omega), Nat.mod_eq_of_lt (by omega), Nat.mul_comm x0,
    hor 24 (by omega)]
  have h16 : 2 ^ 24 * x0 + x1 * 2 ^ 16 = 2 ^ 16 * (2 ^ 8 * x0 + x1) := by omega
  rw [h16, hor 16 (by omega)]
  have h8 : 2 ^ 16 * (2 ^ 8 * x0 + x1) + x2 * 2 ^ 8 = 2 ^ 8 * (2 ^ 16 * x0 + 2 ^ 8 * x1 + x2) := by
    omega
  rw [h8, hor 8 (by omega)]
  omega

/-- The second loop continues the schedule. -/
theorem extend_eq (M : Nat → BitVec 32) : ∀ (k : Nat) (m : List (BitVec 32)), 16 ≤ m.length →
    (∀ t < m.length, m.getD t 0 = Sha2.W M t) →
      ∀ t < m.length + k, (extend k m).getD t 0 = Sha2.W M t
  | 0, m, _, hm => hm
  | k + 1, m, hlen, hm => by
      intro t ht
      have hnext : Sha2.W M m.length = SIG1 (m.getD (m.length - 2) 0) + m.getD (m.length - 7) 0 +
          SIG0 (m.getD (m.length - 15) 0) + m.getD (m.length - 16) 0 := by
        rw [Sha2.W_next M (by omega), hm _ (by omega), hm _ (by omega), hm _ (by omega),
          hm _ (by omega), SIG0_eq, SIG1_eq]
      rw [extend, ← hnext]
      refine extend_eq M k (m ++ [Sha2.W M m.length]) ?_ (fun u hu => ?_) t ?_
      · rw [List.length_append]
        omega
      · rw [List.length_append, List.length_singleton] at hu
        by_cases hlast : u < m.length
        · rw [List.getD_append _ _ _ _ hlast]
          exact hm u hlast
        · have hu : u = m.length := by omega
          subst hu
          simp
      · rw [List.length_append, List.length_singleton]
        omega

theorem schedule_eq (data : Nat → UInt8) {t : Nat} (h : t < 64) :
    (schedule data).getD t 0 = Sha2.W (Sha2.word (slice data 0 64)) t := by
  have hlen : ((List.range 16).map fun i => loadWord data (4 * i)).length = 16 := by simp
  refine extend_eq _ 48 _ (by omega) (fun u hu => ?_) t (by omega)
  rw [hlen] at hu
  rw [Sha2.W_first _ hu, List.getD_eq_getElem?_getD, List.getElem?_map,
    List.getElem?_range hu]
  show loadWord data (4 * u) = _
  have hbyte : ∀ k < 4, (slice data 0 64).getD (4 * u + k) 0 = data (4 * u + k) := by
    intro k hk
    rw [slice, List.getD_eq_getElem?_getD, List.getElem?_map, List.getElem?_range (by omega)]
    simp
  rw [loadWord_eq, rd32, Sha2.word]
  dsimp only
  rw [hbyte 0 (by decide), hbyte 1 (by decide), hbyte 2 (by decide), hbyte 3 (by decide)]
  rfl

end Sha256

/-- `sha256_transform` compresses the block in `data`. -/
theorem sha256Transform_eq (s : Sha2.State) (data : Nat → UInt8) :
    sha256Transform s data = Sha2.compress s (slice data 0 64) := by
  have hrounds : (List.range 64).foldl
        (fun t i => round t (K.getD i 0) ((schedule data).getD i 0)) s =
      (List.range 64).foldl
        (fun t i => Sha2.round t (Sha2.K i) (Sha2.W (Sha2.word (slice data 0 64)) i)) s := by
    refine List.foldl_ext _ _ _ fun t i hi => ?_
    have hi : i < 64 := List.mem_range.mp hi
    rw [K_eq hi, schedule_eq data hi, round_eq]
  rw [sha256Transform, Sha2.compress, hrounds]

/-! ## The stream -/

/-- The two words of the length. -/
def Sha256Ctx.bitlen (ctx : Sha256Ctx) : Nat := ctx.bitlenHi.toNat * 2 ^ 32 + ctx.bitlenLo.toNat

/-- The context was fed `msg`. -/
structure Sha256Ctx.Fed (ctx : Sha256Ctx) (msg : List UInt8) : Prop where
  blocks : Blocks.Fed 64 Sha2.compress Sha2.H0 msg ctx.state (slice ctx.data 0 ctx.datalen)
  bits : ctx.bitlen = 8 * (msg.length - ctx.datalen) % 2 ^ 64

/-- The carry goes to the high word. -/
theorem sha256Addlen_bitlen (ctx : Sha256Ctx) {bytes : Nat} (h : bytes ≤ 64) :
    (sha256Addlen ctx bytes).bitlen = (ctx.bitlen + 8 * bytes) % 2 ^ 64 := by
  have hadd : (BitVec.ofNat 32 bytes <<< 3).toNat = 8 * bytes := by
    rw [BitVec.toNat_shiftLeft, BitVec.toNat_ofNat, Nat.shiftLeft_eq]
    omega
  have hlo := ctx.bitlenLo.isLt
  have hhi := ctx.bitlenHi.isLt
  simp only [Sha256Ctx.bitlen, sha256Addlen, BitVec.lt_def, BitVec.toNat_add, hadd]
  split
  next hcarry =>
    rw [BitVec.toNat_add]
    have hone : (1 : BitVec 32).toNat = 1 := rfl
    rw [hone]
    omega
  next hcarry => omega

/-- A write behind the rest. -/
theorem Sha256Ctx.starts (ctx : Sha256Ctx) (d : List UInt8) :
    Starts (overlay ctx.data ctx.datalen d) (slice ctx.data 0 ctx.datalen ++ d) := by
  have hrest : Starts ctx.data (slice ctx.data 0 ctx.datalen) := by
    rw [Starts, length_slice]
  exact hrest.write (length_slice _ _ _).symm

namespace Sha256Ctx.Fed

variable {ctx : Sha256Ctx} {msg : List UInt8}

theorem room (h : ctx.Fed msg) : ctx.datalen < 64 := by
  have hroom := h.blocks.room
  rwa [length_slice] at hroom

theorem datalen_eq (h : ctx.Fed msg) : ctx.datalen = msg.length % 64 := by
  have hlen := h.blocks.length
  rwa [length_slice] at hlen

theorem byte (h : ctx.Fed msg) (b : UInt8) : (sha256Byte ctx b).Fed (msg ++ [b]) := by
  have hlen := h.datalen_eq
  have hbits := h.bits
  have hstarts := ctx.starts [b]
  rw [Starts, List.length_append, length_slice, List.length_singleton] at hstarts
  unfold sha256Byte
  dsimp only
  split
  next hfull =>
    rw [sha256Transform_eq, ← hfull, hstarts]
    refine ⟨h.blocks.fully (by rw [length_slice]; exact hfull), ?_⟩
    have hadd := sha256Addlen_bitlen { ctx with
      data := overlay ctx.data ctx.datalen [b], datalen := 64
      state := Sha2.compress ctx.state (slice ctx.data 0 ctx.datalen ++ [b]) } (le_refl 64)
    simp only [Sha256Ctx.bitlen, List.length_append, List.length_singleton] at hadd hbits ⊢
    rw [hfull, hadd, hbits]
    omega
  next hroom =>
    refine ⟨?_, ?_⟩
    · rw [hstarts]
      exact h.blocks.partly (by rw [length_slice]; have := h.room; omega)
    · simp only [Sha256Ctx.bitlen, List.length_append, List.length_singleton] at hbits ⊢
      rw [hbits]
      omega

theorem update (h : ctx.Fed msg) (data : List UInt8) : (sha256Update ctx data).Fed (msg ++ data) := by
  induction data generalizing ctx msg with
  | nil =>
      rw [List.append_nil]
      exact h
  | cons b data ih =>
      have hrest := ih (h.byte b)
      rw [List.append_assoc] at hrest
      exact hrest

theorem pieces (h : ctx.Fed msg) (pieces : List (List UInt8)) :
    (pieces.foldl sha256Update ctx).Fed (msg ++ pieces.flatten) := by
  induction pieces generalizing ctx msg with
  | nil =>
      rw [List.flatten_nil, List.append_nil]
      exact h
  | cons piece pieces ih =>
      have hrest := ih (h.update piece)
      rw [List.append_assoc] at hrest
      exact hrest

end Sha256Ctx.Fed

theorem sha256Init_fed (data : Nat → UInt8) : (sha256Init data).Fed [] := by
  refine ⟨?_, by simp [sha256Init, Sha256Ctx.bitlen]⟩
  show Blocks.Fed 64 Sha2.compress Sha2.H0 [] sha256Iv []
  rw [iv_eq]
  exact .start (by decide)

/-! ## The end of the message -/

theorem sha256Bytes_eq (x : BitVec 32) : sha256Bytes x = Sha2.bytes x := by
  have hbyte : ∀ k, UInt8.ofBitVec ((x >>> k).setWidth 8) = UInt8.ofNat (x.toNat / 2 ^ k) := by
    intro k
    rw [← UInt8.toNat_inj, UInt8.toNat_ofNat']
    show ((x >>> k).setWidth 8).toNat = _
    rw [BitVec.toNat_setWidth, BitVec.toNat_ushiftRight, Nat.shiftRight_eq_div_pow]
  simp only [sha256Bytes, Sha2.bytes, hbyte]

/-- The two words are the length that ends the padding. -/
theorem Sha256Ctx.lengthBytes_eq {ctx : Sha256Ctx} {len : Nat} (h : ctx.bitlen = 8 * len % 2 ^ 64) :
    sha256Bytes ctx.bitlenHi ++ sha256Bytes ctx.bitlenLo = Sha2.lengthBytes len := by
  have hlo := ctx.bitlenLo.isLt
  have hhi := ctx.bitlenHi.isLt
  rw [Sha256Ctx.bitlen] at h
  rw [sha256Bytes_eq, sha256Bytes_eq, Sha2.bytes, Sha2.bytes, Sha2.lengthBytes]
  generalize ctx.bitlenHi.toNat = hi at *
  generalize ctx.bitlenLo.toNat = lo at *
  have hdig : ∀ {x y : Nat}, x % 256 = y % 256 → UInt8.ofNat x = UInt8.ofNat y := by
    intro x y hxy
    rw [← UInt8.toNat_inj, UInt8.toNat_ofNat', UInt8.toNat_ofNat']
    exact hxy
  show [UInt8.ofNat (hi / 2 ^ 24), UInt8.ofNat (hi / 2 ^ 16), UInt8.ofNat (hi / 2 ^ 8),
      UInt8.ofNat (hi / 2 ^ 0), UInt8.ofNat (lo / 2 ^ 24), UInt8.ofNat (lo / 2 ^ 16),
      UInt8.ofNat (lo / 2 ^ 8), UInt8.ofNat (lo / 2 ^ 0)] =
    [UInt8.ofNat (8 * len / 256 ^ 7), UInt8.ofNat (8 * len / 256 ^ 6),
      UInt8.ofNat (8 * len / 256 ^ 5), UInt8.ofNat (8 * len / 256 ^ 4),
      UInt8.ofNat (8 * len / 256 ^ 3), UInt8.ofNat (8 * len / 256 ^ 2),
      UInt8.ofNat (8 * len / 256 ^ 1), UInt8.ofNat (8 * len / 256 ^ 0)]
  generalize 8 * len = bits at *
  simp only [List.cons.injEq, and_true]
  refine ⟨hdig ?_, hdig ?_, hdig ?_, hdig ?_, hdig ?_, hdig ?_, hdig ?_, hdig ?_⟩
  all_goals omega

theorem length_sha256Bytes (x : BitVec 32) : (sha256Bytes x).length = 4 := rfl

/-- The length goes to the end of the last block. -/
theorem slice_lastBlock {p : Nat → UInt8} {front : List UInt8} (h : Starts p front)
    (hlen : front.length = 56) (hi lo : BitVec 32) :
    slice (overlay (overlay p 56 (sha256Bytes hi)) 60 (sha256Bytes lo)) 0 64 =
      front ++ (sha256Bytes hi ++ sha256Bytes lo) := by
  have hhi : Starts (overlay p 56 (sha256Bytes hi)) (front ++ sha256Bytes hi) := h.write hlen.symm
  have hlo := hhi.write (o := 60) (d := sha256Bytes lo) (by
    rw [List.length_append, hlen, length_sha256Bytes])
  rw [Starts, List.length_append, List.length_append, hlen, length_sha256Bytes,
    length_sha256Bytes, List.append_assoc] at hlo
  exact hlo

/-- `sha256_final` pads what is left to one block, or to two. -/
theorem sha256Final_eq {ctx : Sha256Ctx} {msg : List UInt8} (h : ctx.Fed msg) :
    sha256Final ctx = Sha2.hash msg := by
  have hroom := h.room
  have hlen := h.datalen_eq
  have hbits : (sha256Addlen ctx ctx.datalen).bitlen = 8 * msg.length % 2 ^ 64 := by
    rw [sha256Addlen_bitlen ctx (by omega), h.bits]
    omega
  have hlength := Sha256Ctx.lengthBytes_eq hbits
  have hrest := length_slice ctx.data 0 ctx.datalen
  have hmark : Starts (overlay ctx.data ctx.datalen [0x80])
      (slice ctx.data 0 ctx.datalen ++ [0x80]) := ctx.starts [0x80]
  have hzeros : ∀ k, Starts (overlay (overlay ctx.data ctx.datalen [0x80]) (ctx.datalen + 1)
      (List.replicate k 0)) (slice ctx.data 0 ctx.datalen ++ [0x80] ++ List.replicate k 0) :=
    fun k => hmark.write (by rw [List.length_append, hrest, List.length_singleton])
  have hdata : (sha256Addlen ctx ctx.datalen).data = ctx.data := rfl
  have hstate : (sha256Addlen ctx ctx.datalen).state = ctx.state := rfl
  unfold sha256Final
  dsimp only
  generalize sha256Addlen ctx ctx.datalen = last at hlength hdata hstate ⊢
  rw [hdata, hstate]
  have hbytes : ∀ s : Sha2.State, s.words.flatMap sha256Bytes = s.words.flatMap Sha2.bytes :=
    fun s => List.flatMap_congr fun x _ => sha256Bytes_eq x
  rw [hbytes, Sha2.hash, sha256Transform_eq]
  congr 2
  split
  next hshort =>
    -- the marker, the zeros and the length fit behind the rest
    have hz : Sha2.zeros msg.length = 55 - ctx.datalen := by
      rw [Sha2.zeros, ← hlen]
      omega
    have hpad : Sha2.padding msg.length =
        0x80 :: List.replicate (55 - ctx.datalen) 0 ++ Sha2.lengthBytes msg.length := by
      rw [Sha2.padding, hz]
    rw [slice_lastBlock (hzeros (55 - ctx.datalen)) (by simp; omega), hlength, Sha2.pad, hpad,
      h.blocks.close (by simp; omega)]
    simp
  next hlong =>
    -- they take another block
    have hz : Sha2.zeros msg.length = 63 - ctx.datalen + 56 := by
      rw [Sha2.zeros, ← hlen]
      omega
    have hpad : Sha2.padding msg.length =
        0x80 :: List.replicate (63 - ctx.datalen) 0 ++
          (List.replicate 56 0 ++ Sha2.lengthBytes msg.length) := by
      rw [Sha2.padding, hz, List.replicate_add]
      simp
    have hfirst := hzeros (63 - ctx.datalen)
    have hclear : Starts (overlay (overlay (overlay ctx.data ctx.datalen [0x80]) (ctx.datalen + 1)
        (List.replicate (63 - ctx.datalen) 0)) 0 (List.replicate 56 0)) (List.replicate 56 0) :=
      (Starts.nil _).write rfl
    have hsixty : (slice ctx.data 0 ctx.datalen ++ [0x80] ++
        List.replicate (63 - ctx.datalen) 0).length = 64 := by
      simp
      omega
    rw [Starts, hsixty] at hfirst
    rw [slice_lastBlock hclear (by simp), hlength, sha256Transform_eq, hfirst, Sha2.pad, hpad,
      ← List.append_assoc, h.blocks.close₂ (by simp; omega) (by simp)]
    simp

/-! ## Main results -/

/-- **The hash of a stream.**  Whatever lies in the context before, and in whatever pieces the
message comes, the digest is the hash of the message. -/
theorem sha256_streams (garbage : Nat → UInt8) (pieces : List (List UInt8)) :
    sha256Final (pieces.foldl sha256Update (sha256Init garbage)) = Sha2.hash pieces.flatten := by
  have hfed := (sha256Init_fed garbage).pieces pieces
  exact sha256Final_eq hfed

example : sha256 (fun _ => 7) (ascii "abc") = [
    0xba, 0x78, 0x16, 0xbf, 0x8f, 0x01, 0xcf, 0xea, 0x41, 0x41, 0x40, 0xde, 0x5d, 0xae, 0x22, 0x23,
    0xb0, 0x03, 0x61, 0xa3, 0x96, 0x17, 0x7a, 0x9c, 0xb4, 0x10, 0xff, 0x61, 0xf2, 0x00, 0x15, 0xad] := by
  decide +kernel

end Dossh
