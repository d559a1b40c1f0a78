import Dossh.Ssh.State

/-!
# Framing and reading

The output queue, the two kinds of packets `ssh.c` sends, and its string readers.
-/

namespace Dossh

/-- A small sum does not wrap in either build. -/
theorem SshEnv.u_small (env : SshEnv) {x : Nat} (h : x < 65536) : env.u x = x := by
  unfold SshEnv.u
  apply Nat.mod_eq_of_lt
  cases env.build <;> simp only [Build.size] <;> omega

/-! ## Strings -/

/-- `put_str`: a string with its length in front. -/
def putStr (s : List UInt8) : List UInt8 := be32 s.length ++ s

theorem length_be32 (n : Nat) : (be32 n).length = 4 := rfl

theorem length_putStr (s : List UInt8) : (putStr s).length = 4 + s.length := by
  rw [putStr, List.length_append, length_be32]

/-- `put_nl`: a name list from a literal. -/
def putNl (s : String) : List UInt8 := putStr (ascii s)

/-- A string in front of something is determined by the bytes. -/
theorem putStr_append_inj {a b x y : List UInt8} (ha : a.length < 4294967296)
    (hb : b.length < 4294967296) (h : putStr a ++ x = putStr b ++ y) : a = b ∧ x = y := by
  unfold putStr at h
  rw [List.append_assoc, List.append_assoc] at h
  obtain ⟨hlen, hrest⟩ := List.append_inj h rfl
  exact List.append_inj hrest (be32_inj ha hb hlen)

/-- `rd_string`: the string at offset `o` and the offset behind it. -/
def rdString (pl : Payload) (o : Nat) : Option (Payload × Nat) :=
  if o > pl.len ∨ pl.len - o < 4 then none
  else
    let l := pl.u32 o
    if l > pl.len - o - 4 then none else some (pl.sub (o + 4) l, o + 4 + l)

/-- The part of the payload that `rd_string` itself reads. -/
def Ssh.readString (s : Ssh) (pl : Payload) (o : Nat) : Ssh :=
  if o > pl.len ∨ pl.len - o < 4 then s else s.read pl o 4

/-- A string is read as a whole (`memcmp`, `memcpy`, hashing). -/
def Ssh.readAll (s : Ssh) (pl : Payload) : Ssh := s.read pl 0 pl.len

/-- A byte inside a payload whose bytes are known. -/
theorem Payload.get_of_bytes {pl : Payload} {bytes : List UInt8} (h : pl.bytes = bytes) {k : Nat}
    (hk : k < bytes.length) : pl.get k = bytes.getD k 0 := by
  have hlen : pl.len = bytes.length := by rw [← h, Payload.bytes, length_slice]
  rw [← h, Payload.bytes, Payload.get]
  simp [slice, hlen, hk]

/-- A word inside it. -/
theorem Payload.u32_of_bytes {pl : Payload} {bytes : List UInt8} (h : pl.bytes = bytes) {o : Nat}
    (ho : o + 3 < bytes.length) : pl.u32 o = rd32 (fun k => bytes.getD k 0) o := by
  have h0 := get_of_bytes h (k := o) (by omega)
  have h1 := get_of_bytes h (k := o + 1) (by omega)
  have h2 := get_of_bytes h (k := o + 2) (by omega)
  have h3 := get_of_bytes h (k := o + 3) (by omega)
  simp only [Payload.get] at h0 h1 h2 h3
  simp only [Payload.u32, rd32, Nat.add_assoc, h0, h1, h2, h3]

/-- A string that `rd_string` finds is `put_str` of its bytes. -/
theorem rdString_bytes {pl str : Payload} {o o' : Nat} (h : rdString pl o = some (str, o')) :
    pl.bytes.drop o = putStr str.bytes ++ pl.bytes.drop o' ∧ o ≤ o' ∧ o' ≤ pl.len := by
  unfold rdString at h
  split at h
  · cases h
  next hroom =>
    dsimp only at h
    split at h
    · cases h
    next hfit =>
      cases h
      rw [not_or, Nat.not_lt, Nat.not_lt] at hroom
      refine ⟨?_, by omega, by omega⟩
      have hlen : pl.len - o = 4 + (pl.u32 o + (pl.len - (o + 4 + pl.u32 o))) := by omega
      unfold Payload.bytes putStr
      rw [drop_slice, drop_slice, hlen, slice_add, slice_add, length_slice, List.append_assoc]
      congr 1
      · exact (be32_rd32 _ _).symm
      · simp [Payload.sub, Nat.add_assoc]

/-! ## Sealing -/

/-- `seqbuf8`. -/
def seqbuf8 (seq : BitVec 32) : List UInt8 := [0, 0, 0, 0] ++ be32 seq.toNat

/-- `dossh_chacha20_djb`. -/
def Crypto.djb (cr : Crypto) (data key nonce : List UInt8) (ctr : Nat) : List UInt8 :=
  data.mapIdx fun k b => b ^^^ cr.chacha20 key nonce ctr k

/-- `polykey`: the first key stream bytes of the main key. -/
def Crypto.polykey (cr : Crypto) (key nonce : List UInt8) : List UInt8 :=
  slice (cr.chacha20 key nonce 0) 0 32

/-- The padding that fills `n` bytes up to the block size. -/
def padLen (n : Nat) : Nat := if 8 - n % 8 < 4 then 8 - n % 8 + 8 else 8 - n % 8

/-- The wire bytes of `aead_seal`: encrypted length, encrypted body, tag.  The main key is
the first half of `ek` and the header key the second. -/
def sealFrame (cr : Crypto) (ek : List UInt8) (seq : BitVec 32) (payload pad : List UInt8) :
    List UInt8 :=
  let nonce := seqbuf8 seq
  let body := UInt8.ofNat pad.length :: (payload ++ pad)
  let encLen := cr.djb (be32 body.length) (ek.drop 32) nonce 0
  let encBody := cr.djb body (ek.take 32) nonce 1
  encLen ++ encBody ++ cr.poly1305 (encLen ++ encBody) (cr.polykey (ek.take 32) nonce)

namespace Ssh

/-! ## Sending -/

/-- `ob_append`. -/
def obAppend (env : SshEnv) (s : Ssh) (d : List UInt8) : Ssh :=
  if env.u (s.g.ob.length + d.length) > SSH_OB_SZ then
    { s.fail "output overflow" with g := { s.g with overflow := true } }
  else { s with g := { s.g with ob := s.g.ob ++ d } }

/-- `ob_append` with enough room. -/
theorem obAppend_fits (env : SshEnv) (s : Ssh) (d : List UInt8)
    (h : s.g.ob.length + d.length ≤ SSH_OB_SZ) :
    s.obAppend env d = { s with g := { s.g with ob := s.g.ob ++ d } } := by
  have hsz : SSH_OB_SZ = 2048 := rfl
  have hu : env.u (s.g.ob.length + d.length) = s.g.ob.length + d.length :=
    env.u_small (by omega)
  rw [obAppend, hu, if_neg (by omega)]

/-- A packet was framed: its event and the next sequence number. -/
def framed (s : Ssh) (encrypted : Bool) (payload bytes : List UInt8) : Ssh :=
  { s with c := { s.c with
    sendSeq := s.c.sendSeq + 1
    trace := .frame encrypted s.c.sendSeq payload bytes :: s.c.trace } }

/-- `send_unenc`. -/
def sendUnenc (env : SshEnv) (s : Ssh) (payload : List UInt8) : Ssh :=
  let padlen := padLen (4 + 1 + payload.length)
  let hdr := be32 (1 + payload.length + padlen) ++ [UInt8.ofNat padlen]
  let pad := env.rngBytes s.g.rngPos padlen
  let s := s.obAppend env hdr
  let s := s.obAppend env payload
  let s := s.rngSkip padlen
  let s := s.obAppend env pad
  s.framed false payload (hdr ++ payload ++ pad)

/-- `aead_seal`: the wire bytes and the connection afterwards. -/
def aeadSeal (env : SshEnv) (s : Ssh) (payload : List UInt8) : List UInt8 × Ssh :=
  let padlen := padLen (1 + payload.length)
  let pad := env.rngBytes s.g.rngPos padlen
  let wire := sealFrame env.crypto s.c.ekS2c s.c.sendSeq payload pad
  (wire, (s.rngSkip padlen).framed true payload wire)

/-- `send_enc`. -/
def sendEnc (env : SshEnv) (s : Ssh) (payload : List UInt8) : Ssh :=
  if payload.length > SSH_ENC_MAX_PLEN then s.fail "enc payload too large"
  else
    let r := s.aeadSeal env payload
    r.2.obAppend env r.1

/-- `send_packet`. -/
def sendPacket (env : SshEnv) (s : Ssh) (payload : List UInt8) : Ssh :=
  if s.c.sendEncrypted then s.sendEnc env payload else s.sendUnenc env payload

end Ssh

end Dossh
