import Dossh.Lib.Checksum
import Dossh.Net.Api

/-!
# Frames on the wire

The other modules keep a segment as a record.  Here `tcp_send_seg`, `send_rst` and `ip_send` write
its bytes as the source does, over whatever their static arrays held before.  What goes to the
driver is the record, encoded (`Seg.frame`), and its two checksums verify.
-/

namespace Dossh

variable {n : Nat}

/-! ## Byte order and checksum -/

/-- The memory behind a pointer to a byte string. -/
def ptr (l : List UInt8) : Nat → UInt8 := fun k => l.getD k 0

/-- `wr16`. -/
def wr16 (p : Nat → UInt8) (o v : Nat) : Nat → UInt8 := overlay p o (be16 v)

/-- `wr32`. -/
def wr32 (p : Nat → UInt8) (o v : Nat) : Nat → UInt8 := overlay p o (be32 v)

/-- `memcpy`. -/
def memcpy (p : Nat → UInt8) (o : Nat) (src : Nat → UInt8) (len : Nat) : Nat → UInt8 :=
  overlay p o (slice src 0 len)

/-- The loop of `sum16`, from index `i` on. -/
def sum16Loop (p : Nat → UInt8) : Nat → Nat → BitVec 32 → BitVec 32
  | 0, _, sum => sum
  | turns + 1, i, sum => sum16Loop p turns (i + 2) (sum + BitVec.ofNat 32 (rd16 p i))
termination_by structural turns => turns

/-- `sum16`. -/
def sum16 (p : Nat → UInt8) (len : Nat) (sum : BitVec 32) : BitVec 32 :=
  let sum := sum16Loop p (len / 2) 0 sum
  if len % 2 = 1 then sum + BitVec.ofNat 32 ((p (len - 1)).toNat * 256) else sum

theorem toNat_low (sum : BitVec 32) : (sum &&& 0xFFFF#32).toNat = sum.toNat % 65536 := by
  rw [BitVec.toNat_and]
  exact Nat.and_two_pow_sub_one_eq_mod sum.toNat 16

theorem toNat_high (sum : BitVec 32) : (sum >>> 16).toNat = sum.toNat / 65536 := by
  rw [BitVec.toNat_ushiftRight, Nat.shiftRight_eq_div_pow]

theorem toNat_carried (sum : BitVec 32) :
    ((sum &&& 0xFFFF#32) + (sum >>> 16)).toNat = sum.toNat % 65536 + sum.toNat / 65536 := by
  have hsum := sum.isLt
  rw [BitVec.toNat_add, toNat_low, toNat_high]
  omega

/-- The loop of `fin16`.  Every turn makes the number smaller. -/
def fin16Loop (sum : BitVec 32) : BitVec 32 :=
  if sum >>> 16 ≠ 0 then fin16Loop ((sum &&& 0xFFFF#32) + (sum >>> 16)) else sum
termination_by sum.toNat
decreasing_by
  rename_i hhigh
  rw [toNat_carried]
  have hne : sum.toNat / 65536 ≠ 0 := by
    rw [← toNat_high]
    intro h0
    exact hhigh (BitVec.eq_of_toNat_eq h0)
  omega

/-- `fin16`. -/
def fin16 (sum : BitVec 32) : Nat := (~~~fin16Loop sum &&& 0xFFFF#32).toNat

/-! ## Transmission -/

/-- `ip_send`: the frame that `pkt_send` gets.  `e` is what `g_txbuf` held before. -/
def ipSend (net : Net n) (e : Nat → UInt8) (proto : UInt8) (dstMac dstIp l4 : Nat → UInt8)
    (l4len : Nat) : List UInt8 :=
  let tot := 20 + l4len
  let e := memcpy e 0 dstMac 6
  let e := memcpy e 6 (ptr net.gMac) 6
  let e := wr16 e 12 0x0800
  let e := overlay e 14 [0x45, 0x00]
  let e := wr16 e (14 + 2) tot
  let e := wr16 e (14 + 4) ((net.gIpId + 1) % 65536)
  let e := wr16 e (14 + 6) 0x4000
  let e := overlay e (14 + 8) [64, proto]
  let e := overlay e (14 + 10) [0, 0]
  let e := memcpy e (14 + 12) (ptr net.gIp) 4
  let e := memcpy e (14 + 16) dstIp 4
  let e := wr16 e (14 + 10) (fin16 (sum16 (fun k => e (14 + k)) 20 0))
  let e := memcpy e (14 + 20) l4 l4len
  slice e 0 (14 + tot)

/-- The writes of `tcp_send_seg` into `seg`, up to the checksum. -/
def writeSeg (net : Net n) (seg : Nat → UInt8) (c : Conn) (flags : UInt8) (withMss : Bool)
    (doff dlen : Nat) : Nat → UInt8 :=
  let hlen := if withMss then 24 else 20
  let seg := wr16 seg 0 net.myPort
  let seg := wr16 seg 2 c.peerPort
  let seg := wr32 seg 4 c.sndNxt.toNat
  let seg := wr32 seg 8 c.rcvNxt.toNat
  let seg := overlay seg 12 [UInt8.ofNat (hlen / 4 * 16), flags]
  let seg := wr16 seg 14 ((RCV_SZ - 1) - Ring.dist RCV_SZ c.rHead c.rTail)
  let seg := overlay seg 16 [0, 0]
  let seg := overlay seg 18 [0, 0]
  let seg := if withMss then wr16 (overlay seg 20 [0x02, 0x04]) 22 MSS_TX else seg
  overlay seg hlen (Ring.read SND_SZ c.sbuf doff dlen)

/-- The frame of `tcp_send_seg`.  `e` and `seg` are what `g_txbuf` and `seg` held before. -/
def tcpSendSegFrame (net : Net n) (e seg : Nat → UInt8) (c : Conn) (flags : UInt8) (withMss : Bool)
    (doff dlen : Nat) : List UInt8 :=
  let hlen := if withMss then 24 else 20
  let seg := writeSeg net seg c flags withMss doff dlen
  let sum := sum16 (ptr net.gIp) 4 0
  let sum := sum16 (ptr c.peerIp) 4 sum
  let sum := sum + 6
  let sum := sum + BitVec.ofNat 32 (hlen + dlen)
  let sum := sum16 seg (hlen + dlen) sum
  let seg := wr16 seg 16 (fin16 sum)
  ipSend net e 6 (ptr c.peerMac) (ptr c.peerIp) seg (hlen + dlen)

/-- The frame of `send_rst`. -/
def sendRstFrame (net : Net n) (e seg : Nat → UInt8) (srcMac srcIp : List UInt8) (sport : Nat)
    (seq : BitVec 32) : List UInt8 :=
  let seg := wr16 seg 0 net.myPort
  let seg := wr16 seg 2 sport
  let seg := wr32 seg 4 0
  let seg := wr32 seg 8 (seq + 1).toNat
  let seg := overlay seg 12 [UInt8.ofNat (20 / 4 * 16), 0x14]
  let seg := overlay seg 14 [0, 0]
  let seg := overlay seg 16 [0, 0]
  let seg := overlay seg 18 [0, 0]
  let sum := sum16 (ptr net.gIp) 4 0
  let sum := sum16 (ptr srcIp) 4 sum
  let sum := sum + (6 + 20)
  let sum := sum16 seg 20 sum
  let seg := wr16 seg 16 (fin16 sum)
  ipSend net e 6 (ptr srcMac) (ptr srcIp) seg 20

/-! ## What a receiver checks -/

/-- The IP header of a frame. -/
def ipHeader (frame : List UInt8) : List UInt8 := (frame.drop 14).take 20

/-- The TCP segment of a frame. -/
def tcpSegment (frame : List UInt8) : List UInt8 := frame.drop 34

/-- Source, destination, protocol and length of the segment. -/
def pseudoHeader (frame : List UInt8) : List UInt8 :=
  (frame.drop 26).take 8 ++ [0, frame.getD 23 0] ++ be16 (tcpSegment frame).length

/-- A frame whose segment has `len` bytes, with checksums that verify. -/
structure Verifies (frame : List UInt8) (len : Nat) : Prop where
  header : Checksum.sum (ipHeader frame) = 0xFFFF
  segment : Checksum.sum (pseudoHeader frame ++ tcpSegment frame) = 0xFFFF
  total : rd16 (ptr frame) 16 = 20 + len
  length : (tcpSegment frame).length = len

/-! ## The sums -/

theorem sum16Loop_toNat (p : Nat → UInt8) : ∀ (turns i : Nat) (sum : BitVec 32),
    (sum16Loop p turns i sum).toNat =
      (sum.toNat + Checksum.total (slice p i (2 * turns))) % 4294967296
  | 0, i, sum => by
      have hsum := sum.isLt
      rw [sum16Loop, Nat.mul_zero]
      exact (Nat.mod_eq_of_lt hsum).symm
  | turns + 1, i, sum => by
      have hword := rd16_lt p i
      rw [sum16Loop, sum16Loop_toNat p turns (i + 2), (by omega : 2 * (turns + 1) = 2 * turns + 1 + 1),
        slice_succ, slice_succ, Checksum.total_pair, BitVec.toNat_add, BitVec.toNat_ofNat]
      have hpair : (p i).toNat * 256 + (p (i + 1)).toNat = rd16 p i := rfl
      rw [hpair, (rfl : i + 1 + 1 = i + 2)]
      omega

/-- `sum16` adds the words. -/
theorem sum16_toNat (p : Nat → UInt8) (len : Nat) (sum : BitVec 32) :
    (sum16 p len sum).toNat = (sum.toNat + Checksum.total (slice p 0 len)) % 4294967296 := by
  unfold sum16
  dsimp only
  split
  next hodd =>
    have hlen : len = 2 * (len / 2) + 1 := by omega
    have htotal : Checksum.total (slice p 0 len) =
        Checksum.total (slice p 0 (2 * (len / 2))) + (p (len - 1)).toNat * 256 := by
      conv_lhs => rw [hlen]
      have hlast : slice p (2 * (len / 2)) 1 = [p (len - 1)] := by
        rw [(by omega : 2 * (len / 2) = len - 1)]
        rfl
      rw [slice_add, Checksum.total_append (by rw [length_slice]; omega), Nat.zero_add, hlast,
        Checksum.total_single]
    have hlast := (p (len - 1)).toNat_lt
    rw [BitVec.toNat_add, sum16Loop_toNat, BitVec.toNat_ofNat, htotal]
    omega
  next heven =>
    rw [sum16Loop_toNat, (by omega : 2 * (len / 2) = len)]

theorem fin16Loop_toNat (sum : BitVec 32) : (fin16Loop sum).toNat = Checksum.fold sum.toNat := by
  induction sum using fin16Loop.induct with
  | case1 sum hhigh ih => rw [fin16Loop, if_pos hhigh, ih, toNat_carried, Checksum.fold_carry]
  | case2 sum hhigh =>
      have hlow : sum.toNat / 65536 = 0 := by
        rw [← toNat_high, Decidable.not_not.mp hhigh]
        rfl
      rw [fin16Loop, if_neg hhigh, Checksum.fold_of_lt (by omega)]

/-- `fin16` is the checksum of what was added. -/
theorem fin16_eq (sum : BitVec 32) : fin16 sum = Checksum.complement sum.toNat := by
  have hfold := Checksum.fold_lt sum.toNat
  rw [fin16, toNat_low, BitVec.toNat_not, fin16Loop_toNat, Checksum.complement]
  omega

/-! ## A segment as bytes -/

/-- The bytes of a segment up to the checksum. -/
def Seg.front (port : Nat) (s : Seg) : List UInt8 :=
  be16 port ++ be16 s.dstPort ++ be32 s.seq.toNat ++ be32 s.ack.toNat ++
    [UInt8.ofNat ((if s.mss then 24 else 20) / 4 * 16), s.flags] ++ be16 s.window

/-- The bytes of a segment behind the checksum. -/
def Seg.back (s : Seg) : List UInt8 :=
  [0, 0] ++ (if s.mss then [0x02, 0x04] ++ be16 MSS_TX else []) ++ s.data

/-- The length of a segment. -/
def Seg.len (s : Seg) : Nat := (if s.mss then 24 else 20) + s.data.length

/-- The IP header around a segment, up to the checksum. -/
def Seg.ipFront (ipId : Nat) (s : Seg) : List UInt8 :=
  [0x45, 0x00] ++ be16 (20 + s.len) ++ be16 ipId ++ be16 0x4000 ++ [64, 6]

/-- The addresses of a frame. -/
def Seg.addresses (ip : List UInt8) (s : Seg) : List UInt8 :=
  slice (ptr ip) 0 4 ++ slice (ptr s.dstIp) 0 4

/-- The checksum of a segment. -/
def Seg.checksum (ip : List UInt8) (port : Nat) (s : Seg) : Nat :=
  Checksum.complement (Checksum.total (s.addresses ip ++ [0, 6] ++ be16 s.len) +
    Checksum.total (s.front port ++ [0, 0] ++ s.back))

/-- The checksum of the header around a segment. -/
def Seg.ipChecksum (ip : List UInt8) (ipId : Nat) (s : Seg) : Nat :=
  Checksum.complement (Checksum.total (s.ipFront ipId ++ [0, 0] ++ s.addresses ip))

/-- The frame of a segment. -/
def Seg.frame (mac ip : List UInt8) (port ipId : Nat) (s : Seg) : List UInt8 :=
  slice (ptr s.dstMac) 0 6 ++ slice (ptr mac) 0 6 ++ be16 0x0800 ++
    (s.ipFront ipId ++ be16 (s.ipChecksum ip ipId) ++ s.addresses ip) ++
    (s.front port ++ be16 (s.checksum ip port) ++ s.back)

theorem Seg.length_front (port : Nat) (s : Seg) : (s.front port).length = 16 := rfl

theorem Seg.length_ipFront (ipId : Nat) (s : Seg) : (s.ipFront ipId).length = 10 := rfl

theorem Seg.length_addresses (ip : List UInt8) (s : Seg) : (s.addresses ip).length = 8 := rfl

theorem Seg.length_back (s : Seg) : s.back.length + 18 = s.len := by
  unfold back len
  cases s.mss with
  | true =>
      rw [if_pos rfl, if_pos rfl, List.length_append]
      exact Nat.add_right_comm 6 s.data.length 18
  | false =>
      rw [if_neg (by decide), if_neg (by decide), List.length_append]
      exact Nat.add_right_comm 2 s.data.length 18

/-! ## The bytes are the segment -/

/-- `sum16` over bytes that are known, with room for the sum. -/
theorem sum16_eq {p : Nat → UInt8} {l : List UInt8} {len : Nat} (h : slice p 0 len = l)
    {sum : BitVec 32} (hroom : sum.toNat + Checksum.total l < 4294967296) :
    (sum16 p len sum).toNat = sum.toNat + Checksum.total l := by
  rw [sum16_toNat, h, Nat.mod_eq_of_lt hroom]

theorem ipSend_eq (net : Net n) (e : Nat → UInt8) (proto : UInt8) (dstMac dstIp l4 : Nat → UInt8)
    (l4len : Nat) {front back : List UInt8}
    (hfront : front = [0x45, 0x00] ++ be16 (20 + l4len) ++ be16 ((net.gIpId + 1) % 65536) ++
      be16 0x4000 ++ [64, proto])
    (hback : back = slice (ptr net.gIp) 0 4 ++ slice dstIp 0 4) :
    ipSend net e proto dstMac dstIp l4 l4len =
      slice dstMac 0 6 ++ slice (ptr net.gMac) 0 6 ++ be16 0x0800 ++
        (front ++ be16 (Checksum.complement (Checksum.total (front ++ [0, 0] ++ back))) ++ back) ++
          slice l4 0 l4len := by
  generalize heth : slice dstMac 0 6 ++ slice (ptr net.gMac) 0 6 ++ be16 0x0800 = eth
  have hlens : eth.length = 14 ∧ front.length = 10 ∧ back.length = 8 := by
    rw [← heth, hfront, hback]
    exact ⟨rfl, rfl, rfl⟩
  unfold ipSend
  dsimp only
  generalize hE : memcpy (memcpy (overlay _ (14 + 10) [0, 0]) (14 + 12) _ 4) (14 + 16) dstIp 4 = E
  have h₁ : Starts E (eth ++ front ++ [0, 0] ++ back) := by
    rw [← hE, ← heth, hfront, hback]
    have h := (((((((((((Starts.nil e).write (o := 0) (d := slice dstMac 0 6) rfl).write
      (o := 6) (d := slice (ptr net.gMac) 0 6) rfl).write (o := 12) (d := be16 0x0800) rfl).write
      (o := 14) (d := [0x45, 0x00]) rfl).write (o := 14 + 2) (d := be16 (20 + l4len)) rfl).write
      (o := 14 + 4) (d := be16 ((net.gIpId + 1) % 65536)) rfl).write
      (o := 14 + 6) (d := be16 0x4000) rfl).write (o := 14 + 8) (d := [64, proto]) rfl).write
      (o := 14 + 10) (d := [0, 0]) rfl).write (o := 14 + 12) (d := slice (ptr net.gIp) 0 4) rfl).write
      (o := 14 + 16) (d := slice dstIp 0 4) rfl
    simp only [List.nil_append, List.append_assoc] at h ⊢
    exact h
  have hsum : slice (fun k => E (14 + k)) 0 20 = front ++ [0, 0] ++ back := by
    rw [slice_shift]
    rw [List.append_assoc, List.append_assoc] at h₁
    rw [h₁.slice_eq hlens.1.symm (by simp [hlens.2]), List.append_assoc]
  have hck : fin16 (sum16 (fun k => E (14 + k)) 20 0) =
      Checksum.complement (Checksum.total (front ++ [0, 0] ++ back)) := by
    have hbound := Checksum.total_le (front ++ [0, 0] ++ back)
    have hlen : (front ++ [0, 0] ++ back).length = 20 := by simp [hlens.2]
    have hzero : (0 : BitVec 32).toNat = 0 := rfl
    rw [fin16_eq, sum16_eq hsum (by rw [hlen] at hbound; omega), hzero, Nat.zero_add]
  rw [hck]
  generalize hbytes : be16 (Checksum.complement _) = ck
  have hlen : ck.length = 2 := by
    rw [← hbytes]
    rfl
  have h₂ : Starts (memcpy (wr16 E (14 + 10) (Checksum.complement
      (Checksum.total (front ++ [0, 0] ++ back)))) (14 + 20) l4 l4len)
      (eth ++ (front ++ ck ++ back) ++ slice l4 0 l4len) := by
    have h := (h₁.rewrite (o := 14 + 10) (d := ck) (by simp [hlens]) hlen).write
      (o := 14 + 20) (d := slice l4 0 l4len) (by simp [hlens, hlen])
    rw [wr16, memcpy, hbytes]
    simp only [List.append_assoc] at h ⊢
    exact h
  refine Eq.trans ?_ h₂
  congr 1
  simp [hlens, hlen]
  omega

section

variable {s : Seg} {ip : List UInt8} {port : Nat} {seg : Nat → UInt8} {sum : BitVec 32}

theorem Seg.len_le (hdata : s.data.length ≤ MSS_TX) : s.len ≤ 1424 := by
  have hmss : MSS_TX = 1400 := rfl
  unfold len
  split <;> omega

/-- The sum over addresses, protocol and length. -/
theorem Seg.total_pseudo (hlen : s.len < 65536) :
    Checksum.total (s.addresses ip ++ [0, 6] ++ be16 s.len) =
      Checksum.total (slice (ptr ip) 0 4) + Checksum.total (slice (ptr s.dstIp) 0 4) + 6 +
        s.len := by
  have hword : (UInt8.ofNat (s.len / 256)).toNat * 256 + (UInt8.ofNat s.len).toNat = s.len := by
    simp only [UInt8.toNat_ofNat']
    omega
  have heven : (s.addresses ip ++ [0, 6]).length % 2 = 0 := by
    rw [List.length_append, length_addresses]
    rfl
  rw [Checksum.total_append heven, Checksum.total_append (by rw [length_addresses]), addresses,
    Checksum.total_append (by rw [length_slice])]
  have hsix : Checksum.total [0, 6] = 6 := rfl
  have hlast : Checksum.total (be16 s.len) = s.len := by
    rw [be16, Checksum.total_pair, hword]
    rfl
  rw [hsix, hlast]

/-- The checksum goes between the two parts of a segment. -/
theorem Seg.sealed (hdata : s.data.length ≤ MSS_TX)
    (hseg : Starts seg (s.front port ++ [0, 0] ++ s.back))
    (hsum : sum.toNat = Checksum.total (s.addresses ip ++ [0, 6] ++ be16 s.len)) :
    slice (wr16 seg 16 (fin16 (sum16 seg s.len sum))) 0 s.len =
      s.front port ++ be16 (s.checksum ip port) ++ s.back := by
  have hlen := s.len_le hdata
  have hback := s.length_back
  have hfront := s.length_front port
  have hwhole : (s.front port ++ [0, 0] ++ s.back).length = s.len := by
    simp only [List.length_append, hfront, List.length_cons, List.length_nil]
    omega
  have hbytes : slice seg 0 s.len = s.front port ++ [0, 0] ++ s.back := by
    rw [← hwhole]
    exact hseg
  have hroom : sum.toNat + Checksum.total (s.front port ++ [0, 0] ++ s.back) < 4294967296 := by
    have hpseudo := Checksum.total_le (s.addresses ip ++ [0, 6] ++ be16 s.len)
    have hplen : (s.addresses ip ++ [0, 6] ++ be16 s.len).length = 12 := by
      rw [List.length_append, List.length_append, length_addresses]
      rfl
    have hbound := Checksum.total_le (s.front port ++ [0, 0] ++ s.back)
    rw [hplen] at hpseudo
    rw [hwhole] at hbound
    omega
  have hck : fin16 (sum16 seg s.len sum) = s.checksum ip port := by
    rw [fin16_eq, sum16_eq hbytes hroom, hsum]
    rfl
  rw [hck, wr16]
  generalize hbytes : be16 (s.checksum ip port) = ck
  have hck : ck.length = 2 := by
    rw [← hbytes]
    rfl
  have h := hseg.rewrite (o := 16) (d := ck) hfront.symm hck
  have hsame : (s.front port ++ ck ++ s.back).length = s.len := by
    simp only [List.length_append, hfront, hck]
    omega
  rw [Starts, hsame] at h
  exact h

/-- The sum over the two addresses. -/
theorem addresses_toNat (ip dst : List UInt8) :
    (sum16 (ptr dst) 4 (sum16 (ptr ip) 4 0)).toNat =
      Checksum.total (slice (ptr ip) 0 4) + Checksum.total (slice (ptr dst) 0 4) ∧
    Checksum.total (slice (ptr ip) 0 4) + Checksum.total (slice (ptr dst) 0 4) ≤ 262140 := by
  have hip := Checksum.total_le (slice (ptr ip) 0 4)
  have hdst := Checksum.total_le (slice (ptr dst) 0 4)
  have hzero : (0 : BitVec 32).toNat = 0 := rfl
  rw [length_slice] at hip hdst
  have hfirst : (sum16 (ptr ip) 4 0).toNat = Checksum.total (slice (ptr ip) 0 4) := by
    rw [sum16_eq rfl (by rw [hzero]; omega), hzero, Nat.zero_add]
  refine ⟨?_, by omega⟩
  rw [sum16_eq rfl (by omega), hfirst]

/-- A segment that was built is sent as its frame. -/
theorem ipSend_frame (net : Net n) (e : Nat → UInt8) (hdata : s.data.length ≤ MSS_TX)
    (hseg : Starts seg (s.front net.myPort ++ [0, 0] ++ s.back))
    (hsum : sum.toNat = Checksum.total (s.addresses net.gIp ++ [0, 6] ++ be16 s.len)) :
    ipSend net e 6 (ptr s.dstMac) (ptr s.dstIp)
        (wr16 seg 16 (fin16 (sum16 seg s.len sum))) s.len =
      s.frame net.gMac net.gIp net.myPort ((net.gIpId + 1) % 65536) := by
  rw [ipSend_eq net e 6 _ _ _ s.len rfl rfl, Seg.sealed hdata hseg hsum]
  rfl

end

/-- The writes leave the segment that the record says. -/
theorem writeSeg_starts (net : Net n) (seg : Nat → UInt8) (c : Conn) (flags : UInt8)
    (withMss : Bool) (doff dlen : Nat) :
    Starts (writeSeg net seg c flags withMss doff dlen)
      ((c.mkSeg flags withMss doff dlen).front net.myPort ++ [0, 0] ++
        (c.mkSeg flags withMss doff dlen).back) := by
  unfold writeSeg
  dsimp only
  generalize hw : (RCV_SZ - 1) - Ring.dist RCV_SZ c.rHead c.rTail = window
  generalize hd : Ring.read SND_SZ c.sbuf doff dlen = data
  have hfront : (c.mkSeg flags withMss doff dlen).front net.myPort = be16 net.myPort ++
      be16 c.peerPort ++ be32 c.sndNxt.toNat ++ be32 c.rcvNxt.toNat ++
      [UInt8.ofNat ((if withMss then 24 else 20) / 4 * 16), flags] ++ be16 window := by
    rw [← hw]
    rfl
  have hback : (c.mkSeg flags withMss doff dlen).back =
      [0, 0] ++ (if withMss then [0x02, 0x04] ++ be16 MSS_TX else []) ++ data := by
    rw [← hd]
    rfl
  rw [hfront, hback]
  generalize (if withMss then 24 else 20) / 4 * 16 = toff
  have h := (((((((Starts.nil seg).write (o := 0) (d := be16 net.myPort) rfl).write
    (o := 2) (d := be16 c.peerPort) rfl).write (o := 4) (d := be32 c.sndNxt.toNat) rfl).write
    (o := 8) (d := be32 c.rcvNxt.toNat) rfl).write (o := 12) (d := [UInt8.ofNat toff, flags]) rfl).write
    (o := 14) (d := be16 window) rfl).write (o := 16) (d := [0, 0]) rfl |>.write
    (o := 18) (d := [0, 0]) rfl
  cases withMss with
  | true =>
      have h := (h.write (o := 20) (d := [0x02, 0x04]) rfl).write (o := 22) (d := be16 MSS_TX) rfl |>.write
        (o := 24) (d := data) rfl
      simp only [List.nil_append, List.append_assoc, if_true] at h ⊢
      exact h
  | false =>
      have h := h.write (o := 20) (d := data) rfl
      simp only [List.nil_append, List.append_assoc] at h ⊢
      exact h

/-- `tcp_send_seg` sends the segment that the record says. -/
theorem tcpSendSegFrame_eq (net : Net n) (e seg : Nat → UInt8) (c : Conn) (flags : UInt8)
    (withMss : Bool) (doff : Nat) {dlen : Nat} (hdlen : dlen ≤ MSS_TX) :
    tcpSendSegFrame net e seg c flags withMss doff dlen =
      (c.mkSeg flags withMss doff dlen).frame net.gMac net.gIp net.myPort
        ((net.gIpId + 1) % 65536) := by
  have hstarts := writeSeg_starts net seg c flags withMss doff dlen
  have hdata : (c.mkSeg flags withMss doff dlen).data.length = dlen := Ring.length_read _ _ _ _
  have hlen : (if withMss then 24 else 20) + dlen = (c.mkSeg flags withMss doff dlen).len :=
    (congrArg _ hdata).symm
  have hsmall := Seg.len_le (hdata.trans_le hdlen)
  obtain ⟨haddr, hbound⟩ := addresses_toNat net.gIp c.peerIp
  have hmac : (c.mkSeg flags withMss doff dlen).dstMac = c.peerMac := rfl
  have hip : (c.mkSeg flags withMss doff dlen).dstIp = c.peerIp := rfl
  unfold tcpSendSegFrame
  dsimp only
  generalize writeSeg net seg c flags withMss doff dlen = seg at hstarts ⊢
  generalize c.mkSeg flags withMss doff dlen = s at *
  rw [hlen, ← hmac, ← hip]
  refine ipSend_frame net e (hdata.trans_le hdlen) hstarts ?_
  rw [← hip] at haddr hbound
  have hsix : (6 : BitVec 32).toNat = 6 := rfl
  rw [Seg.total_pseudo (by omega), BitVec.toNat_add, BitVec.toNat_add, haddr, BitVec.toNat_ofNat,
    hsix]
  omega

/-- `send_rst` sends the refusal. -/
theorem sendRstFrame_eq (net : Net n) (e seg : Nat → UInt8) (srcMac srcIp : List UInt8)
    (sport : Nat) (seq : BitVec 32) :
    sendRstFrame net e seg srcMac srcIp sport seq =
      ({ dstMac := srcMac, dstIp := srcIp, dstPort := sport, seq := 0, ack := seq + 1
         flags := 0x14, window := 0, mss := false, data := [] } : Seg).frame net.gMac net.gIp
        net.myPort ((net.gIpId + 1) % 65536) := by
  obtain ⟨haddr, hbound⟩ := addresses_toNat net.gIp srcIp
  generalize hs : ({ dstMac := srcMac, dstIp := srcIp, dstPort := sport, seq := 0, ack := seq + 1
                     flags := 0x14, window := 0, mss := false, data := [] } : Seg) = s
  unfold sendRstFrame
  dsimp only
  have h := (((((((Starts.nil seg).write (o := 0) (d := be16 net.myPort) rfl).write
    (o := 2) (d := be16 sport) rfl).write (o := 4) (d := be32 0) rfl).write
    (o := 8) (d := be32 (seq + 1).toNat) rfl).write
    (o := 12) (d := [UInt8.ofNat (20 / 4 * 16), 0x14]) rfl).write
    (o := 14) (d := [0, 0]) rfl).write (o := 16) (d := [0, 0]) rfl |>.write
    (o := 18) (d := [0, 0]) rfl
  have hstarts : Starts (overlay (overlay (overlay (overlay (wr32 (wr32 (wr16 (wr16 seg 0 net.myPort)
      2 sport) 4 0) 8 (seq + 1).toNat) 12 [UInt8.ofNat (20 / 4 * 16), 0x14]) 14 [0, 0]) 16 [0, 0])
      18 [0, 0]) (s.front net.myPort ++ [0, 0] ++ s.back) := by
    have hwindow : be16 0 = [0, 0] := by decide
    have hfront : s.front net.myPort = be16 net.myPort ++ be16 sport ++ be32 0 ++
        be32 (seq + 1).toNat ++ [UInt8.ofNat (20 / 4 * 16), 0x14] ++ be16 0 := by
      rw [← hs]
      rfl
    have hback : s.back = [0, 0] := by
      rw [← hs]
      rfl
    rw [hfront, hback, hwindow]
    exact h
  have hlen : s.len = 20 := by
    rw [← hs]
    rfl
  have hmac : s.dstMac = srcMac := by rw [← hs]
  have hip : s.dstIp = srcIp := by rw [← hs]
  have hdata : s.data.length ≤ MSS_TX := by
    rw [← hs]
    exact Nat.zero_le _
  generalize overlay (overlay _ 16 [0, 0]) 18 [0, 0] = seg at hstarts ⊢
  rw [← hlen, ← hmac, ← hip]
  refine ipSend_frame net e hdata hstarts ?_
  rw [← hip] at haddr hbound
  have hrest : (6 + 20 : BitVec 32).toNat = 26 := rfl
  rw [Seg.total_pseudo (by omega), BitVec.toNat_add, haddr, hlen, hrest]
  omega

/-! ## Verification -/

theorem be16_word {v : Nat} (hv : v < 65536) :
    (UInt8.ofNat (v / 256)).toNat * 256 + (UInt8.ofNat v).toNat = v := by
  simp only [UInt8.toNat_ofNat']
  omega

/-- Bytes that carry their checksum fold to all ones, together with `k`. -/
theorem fold_sealed {front back : List UInt8} (hfront : front.length % 2 = 0) (k : Nat) :
    Checksum.fold (k + Checksum.total (front ++
      be16 (Checksum.complement (k + Checksum.total (front ++ [0, 0] ++ back))) ++ back)) =
        65535 := by
  have hsum := be16_word (Nat.lt_succ_of_le (Nat.sub_le 65535 (Checksum.fold
    (k + Checksum.total (front ++ [0, 0] ++ back)))))
  rw [be16, List.append_assoc]
  rw [List.append_assoc] at hsum ⊢
  exact Checksum.fold_checked hfront hsum

/-- The frame of a segment verifies. -/
theorem Seg.frame_verifies (mac ip : List UInt8) (port ipId : Nat) {s : Seg}
    (hdata : s.data.length ≤ MSS_TX) : Verifies (s.frame mac ip port ipId) s.len := by
  have hsmall := s.len_le hdata
  have hfront := s.length_front port
  have hback := s.length_back
  have hproto : (s.frame mac ip port ipId).getD 23 0 = 6 := rfl
  have htotal : rd16 (ptr (s.frame mac ip port ipId)) 16 = 20 + s.len :=
    be16_word (by omega)
  generalize heth : slice (ptr s.dstMac) 0 6 ++ slice (ptr mac) 0 6 ++ be16 0x0800 = eth
  have heth' : eth.length = 14 := by
    rw [← heth]
    rfl
  generalize hck : be16 (s.checksum ip port) = ck
  have hck' : ck.length = 2 := by
    rw [← hck]
    rfl
  generalize hipck : be16 (s.ipChecksum ip ipId) = ipck
  have hipck' : ipck.length = 2 := by
    rw [← hipck]
    rfl
  have hframe : s.frame mac ip port ipId =
      eth ++ (s.ipFront ipId ++ ipck ++ s.addresses ip) ++ (s.front port ++ ck ++ s.back) := by
    rw [Seg.frame, heth, hck, hipck]
  have hlen : (s.front port ++ ck ++ s.back).length = s.len := by
    rw [List.length_append, List.length_append, hfront, hck']
    omega
  have hhdr : (s.ipFront ipId ++ ipck ++ s.addresses ip).length = 20 := by
    rw [List.length_append, List.length_append, hipck', length_ipFront, length_addresses]
  have hheader : ipHeader (s.frame mac ip port ipId) =
      s.ipFront ipId ++ ipck ++ s.addresses ip := by
    rw [hframe, ipHeader, List.append_assoc, List.drop_left' heth', List.take_left' hhdr]
  have hsegment : tcpSegment (s.frame mac ip port ipId) = s.front port ++ ck ++ s.back := by
    rw [hframe, tcpSegment, List.drop_left' (by rw [List.length_append, heth', hhdr])]
  have hpseudo : pseudoHeader (s.frame mac ip port ipId) =
      s.addresses ip ++ [0, 6] ++ be16 s.len := by
    have hfields : ((s.frame mac ip port ipId).drop 26).take 8 = s.addresses ip := by
      rw [hframe, ← List.append_assoc eth, List.append_assoc _ (s.addresses ip),
        List.drop_left' (by rw [List.length_append, List.length_append, heth', hipck',
          length_ipFront]), List.take_left' (length_addresses ip s)]
    rw [pseudoHeader, hfields, hproto, hsegment, hlen]
  refine ⟨?_, ?_, htotal, by rw [hsegment, hlen]⟩
  · have hsum := @fold_sealed (s.ipFront ipId) (s.addresses ip) (by rw [length_ipFront]) 0
    rw [Nat.zero_add, Nat.zero_add] at hsum
    rw [hheader, Checksum.sum_eq_fold, ← hipck]
    exact hsum
  · have hword : (be16 s.len).length = 2 := rfl
    have heven : (s.addresses ip ++ [0, 6] ++ be16 s.len).length % 2 = 0 := by
      rw [List.length_append, List.length_append, length_addresses, hword]
      rfl
    rw [hpseudo, hsegment, Checksum.sum_eq_fold, Checksum.total_append heven, ← hck]
    exact fold_sealed (by rw [hfront]) _

/-- Every frame that `tcp_send_seg` and `send_rst` build verifies: for every state of the
connection, whatever the static arrays held. -/
theorem checksums_verify (net : Net n) (e seg : Nat → UInt8) :
    (∀ (c : Conn) (flags : UInt8) (withMss : Bool) (doff dlen : Nat), dlen ≤ MSS_TX →
      Verifies (tcpSendSegFrame net e seg c flags withMss doff dlen)
        ((if withMss then 24 else 20) + dlen)) ∧
    ∀ (srcMac srcIp : List UInt8) (sport : Nat) (seq : BitVec 32),
      Verifies (sendRstFrame net e seg srcMac srcIp sport seq) 20 := by
  refine ⟨fun c flags withMss doff dlen hdlen => ?_, fun srcMac srcIp sport seq => ?_⟩
  · have hdata : (c.mkSeg flags withMss doff dlen).data.length = dlen := Ring.length_read _ _ _ _
    have hlen : (c.mkSeg flags withMss doff dlen).len = (if withMss then 24 else 20) + dlen :=
      congrArg _ hdata
    rw [tcpSendSegFrame_eq net e seg c flags withMss doff hdlen, ← hlen]
    exact Seg.frame_verifies _ _ _ _ (hdata.trans_le hdlen)
  · rw [sendRstFrame_eq]
    exact Seg.frame_verifies _ _ _ _ (Nat.zero_le _)

/-- Three bytes, an odd number. -/
theorem checksums_verify_three : 3 ≤ MSS_TX ∧
    Verifies (tcpSendSegFrame (netOpen [2, 0, 0, 0, 0, 1] [10, 0, 0, 2] 23 : Net 1) (fun _ => 0)
      (fun _ => 0xAA) { Conn.zero with sbuf := fun _ => 0xFF } 0x18 false 0 3) (20 + 3) := by
  have hthree : 3 ≤ MSS_TX := by decide
  exact ⟨hthree, (checksums_verify _ _ _).1 _ _ false 0 3 hthree⟩

end Dossh
