import Dossh.Net.Receive

/-!
# What a received frame is read for

`handle_frame` is given a buffer and the number of bytes that were received into it.
Behind them the buffer holds what earlier frames left there.  `FrameUses` lists the
offsets that `handle_frame`, `arp_in` and `tcp_in` act on, and `handleFrame_congr`
says that nothing else of the buffer matters.

`tcp_in` takes the lengths of its segment from the headers alone.  `Covered` is the
condition under which all it uses was received.
-/

namespace Dossh

variable {n : Nat}

/-! ## The storing loop -/

/-- How many bytes the loop stores depends on the indices of the ring only. -/
theorem rcvStore_count_congr (f : Nat → UInt8) :
    ∀ (k o : Nat) (c c' : Conn), c.rHead = c'.rHead → c.rTail = c'.rTail →
      (rcvStore f k o c).2 = (rcvStore f k o c').2
  | 0, _, _, _, _, _ => rfl
  | k + 1, o, c, c', hhead, htail => by
      by_cases hfull : (c.rHead + 1) % RCV_SZ = c.rTail
      · rw [rcvStore_full f k o hfull, rcvStore_full f k o (by rw [← hhead, ← htail, hfull])]
      · rw [rcvStore_keep f k o hfull, rcvStore_keep f k o (by rw [← hhead, ← htail]; exact hfull)]
        have hhead' : (c.keep (f o)).rHead = (c'.keep (f o)).rHead := by simp [Conn.keep, hhead]
        exact congrArg (· + 1) (rcvStore_count_congr f k (o + 1) _ _ hhead' htail)

/-- Free space of the receive ring. -/
def Conn.rcvRoom (c : Conn) : Nat := (RCV_SZ - 1) - c.rcvUsed

/-- The indices of the receive ring are inside it. -/
def Conn.rcvIndexed (c : Conn) : Prop := c.rHead < RCV_SZ ∧ c.rTail < RCV_SZ

theorem Conn.rcvIndexed.keep {c : Conn} (h : c.rcvIndexed) (b : UInt8) : (c.keep b).rcvIndexed :=
  ⟨Nat.mod_lt _ (by decide), h.2⟩

/-- A turn of the loop takes one byte of the free space. -/
theorem Conn.rcvRoom_keep {c : Conn} (h : c.rcvIndexed) (hfree : (c.rHead + 1) % RCV_SZ ≠ c.rTail)
    (b : UInt8) : c.rcvRoom = (c.keep b).rcvRoom + 1 := by
  obtain ⟨hhead, htail⟩ := h
  simp only [RCV_SZ] at hhead htail hfree
  simp only [Conn.rcvRoom, Conn.rcvUsed, Conn.keep, Ring.dist, RCV_SZ]
  omega

theorem Conn.rcvRoom_full {c : Conn} (h : c.rcvIndexed) (hfull : (c.rHead + 1) % RCV_SZ = c.rTail) :
    c.rcvRoom = 0 := by
  obtain ⟨hhead, htail⟩ := h
  simp only [RCV_SZ] at hhead htail hfull
  simp only [Conn.rcvRoom, Conn.rcvUsed, Ring.dist, RCV_SZ]
  omega

/-- The loop stores what fits. -/
theorem rcvStore_count (f : Nat → UInt8) :
    ∀ (k o : Nat) (c : Conn), c.rcvIndexed → (rcvStore f k o c).2 = min k c.rcvRoom
  | 0, _, _, _ => (Nat.zero_min _).symm
  | k + 1, o, c, hin => by
      by_cases hfull : (c.rHead + 1) % RCV_SZ = c.rTail
      · rw [rcvStore_full f k o hfull, Conn.rcvRoom_full hin hfull]
        rfl
      · have hroom := Conn.rcvRoom_keep hin hfull (f o)
        rw [rcvStore_keep f k o hfull, rcvStore_count f k (o + 1) _ (hin.keep (f o))]
        dsimp only
        omega

/-- The loop reads the bytes it stores and no others. -/
theorem rcvStore_congr {f g : Nat → UInt8} :
    ∀ (k o : Nat) (c : Conn), (∀ j < (rcvStore f k o c).2, g (o + j) = f (o + j)) →
      rcvStore g k o c = rcvStore f k o c
  | 0, _, _, _ => rfl
  | k + 1, o, c, h => by
      by_cases hfull : (c.rHead + 1) % RCV_SZ = c.rTail
      · rw [rcvStore_full g k o hfull, rcvStore_full f k o hfull]
      · rw [rcvStore_keep f k o hfull] at h
        have h0 : g o = f o := h 0 (Nat.succ_pos _)
        have ih : rcvStore g k (o + 1) (c.keep (f o)) = rcvStore f k (o + 1) (c.keep (f o)) := by
          apply rcvStore_congr k
          intro j hj
          have hj' := h (j + 1) (Nat.succ_lt_succ hj)
          rwa [Nat.add_comm j 1, ← Nat.add_assoc] at hj'
        rw [rcvStore_keep g k o hfull, rcvStore_keep f k o hfull, h0, ih]

theorem rcvStore_indexed (f : Nat → UInt8) :
    ∀ (k o : Nat) (c : Conn), c.rcvIndexed → (rcvStore f k o c).1.rcvIndexed
  | 0, _, _, h => h
  | k + 1, o, c, h => by
      by_cases hfull : (c.rHead + 1) % RCV_SZ = c.rTail
      · rw [rcvStore_full f k o hfull]
        exact h
      · rw [rcvStore_keep f k o hfull]
        exact rcvStore_indexed f k (o + 1) _ (h.keep (f o))

theorem Conn.rcvIndexed.advance {c : Conn} (h : c.rcvIndexed) (nxt : BitVec 32) :
    Conn.rcvIndexed { c with rcvNxt := nxt } := h

/-- In every reachable state the indices are inside the ring. -/
theorem NetReach.rcvIndexed {net : Net n} (h : NetReach net) (i : Fin n) :
    (net.conns i).rcvIndexed := by
  refine h.induct (P := fun net => ∀ i, (net.conns i).rcvIndexed) ?_ ?_ i
  · intro m ip p i
    exact ⟨Nat.zero_lt_succ _, Nat.zero_lt_succ _⟩
  · intro op net hnet i
    by_cases hop : op = .rxGetc i
    · subst hop
      simp only [NetOp.run]
      by_cases hne : (net.conns i).rTail = (net.conns i).rHead
      · rw [netRxGetc_empty hne]
        exact hnet i
      · rw [netRxGetc_some hne]
        simp only [Net.set_conns_self]
        exact ⟨(hnet i).1, Nat.mod_lt _ (by decide)⟩
    · refine (op.rcvActs net i hop).preserves (fun c c' hc ha => ?_) (hnet i)
      cases ha with
      | same hs => exact ⟨by rw [hs.head]; exact hc.1, by rw [hs.tail]; exact hc.2⟩
      | ended ho => exact ⟨by rw [ho.head]; decide, by rw [ho.tail]; decide⟩
      | store f =>
          have hin := rcvStore_indexed f (tcpHdr f).dlen ((tcpHdr f).off + (tcpHdr f).toff) c hc
          exact hin.advance _

/-! ## The footprint of a frame -/

/-- The slot whose storing loop a segment runs: an established connection, or one that
the segment establishes, that the segment continues with data. -/
def storeSlot (net : Net n) (h : TcpHdr) : Option (Fin n) :=
  if hasFlag h.flags 0x04 || hasFlag h.flags 0x02 || h.dlen = 0 then none
  else
    (findConn net h.sport h.srcIp).filter fun i =>
      let c := net.conns i
      (c.tstate = .estab ||
        (c.tstate = .synrcvd && (hasFlag h.flags 0x10 && h.ack = c.sndNxt))) &&
        h.seq = c.rcvNxt

/-- The offsets of the buffer that `tcp_in` acts on. -/
inductive TcpUses (net : Net n) (f : Nat → UInt8) : Nat → Prop where
  /-- `ihl` says where the TCP header is. -/
  | ihl : TcpUses net f 14
  | dport {k : Nat} (hk : k < 2) : TcpUses net f ((tcpHdr f).off + 2 + k)
  /-- A segment for our port: the test `tcplen < toff`. -/
  | total (hport : (tcpHdr f).dport = net.myPort) {k : Nat} (hk : k < 2) : TcpUses net f (16 + k)
  | toff (hport : (tcpHdr f).dport = net.myPort) : TcpUses net f ((tcpHdr f).off + 12)
  /-- A segment that passes the test: its header and its sender. -/
  | header (hport : (tcpHdr f).dport = net.myPort) (htoff : (tcpHdr f).toff ≤ (tcpHdr f).tcplen)
      {k : Nat} (hk : k < 14) : TcpUses net f ((tcpHdr f).off + k)
  | srcIp (hport : (tcpHdr f).dport = net.myPort) (htoff : (tcpHdr f).toff ≤ (tcpHdr f).tcplen)
      {k : Nat} (hk : k < 4) : TcpUses net f (26 + k)
  | srcMac (hport : (tcpHdr f).dport = net.myPort) (htoff : (tcpHdr f).toff ≤ (tcpHdr f).tcplen)
      {k : Nat} (hk : k < 6) : TcpUses net f (6 + k)
  /-- The bytes that the storing loop copies into the ring. -/
  | data (hport : (tcpHdr f).dport = net.myPort) (htoff : (tcpHdr f).toff ≤ (tcpHdr f).tcplen)
      {i : Fin n} (hi : storeSlot net (tcpHdr f) = some i) {k : Nat}
      (hk : k < (rcvStore f (tcpHdr f).dlen ((tcpHdr f).off + (tcpHdr f).toff) (net.conns i)).2) :
      TcpUses net f ((tcpHdr f).off + (tcpHdr f).toff + k)

/-- The offsets of the buffer that `handle_frame` acts on. -/
inductive FrameUses (net : Net n) (f : Nat → UInt8) (len : Nat) : Nat → Prop where
  | ethertype (hlen : 14 ≤ len) {k : Nat} (hk : k < 2) : FrameUses net f len (12 + k)
  | arp (hlen : 14 + 28 ≤ len) (het : rd16 f 12 = 0x0806) {k : Nat} (hk : k < 28) :
      FrameUses net f len (14 + k)
  | ip (hlen : 14 + 20 ≤ len) (het : rd16 f 12 = 0x0800) {k : Nat} (hk : k < 20) :
      FrameUses net f len (14 + k)
  | tcp (htcp : tcpFrame net f len = true) {k : Nat} (hk : TcpUses net f k) : FrameUses net f len k

section

variable {f g : Nat → UInt8}

theorem arpIn_congr (net : Net n) (len : Nat)
    (hfg : ∀ k < 28, g (14 + k) = f (14 + k)) : arpIn net g len = arpIn net f len := by
  have hslice : ∀ o m, o + m ≤ 28 → slice g (14 + o) m = slice f (14 + o) m := fun o m hom =>
    slice_congr fun k hk => by rw [Nat.add_assoc]; exact hfg _ (by omega)
  have hword : ∀ o, o + 2 ≤ 28 → rd16 g (14 + o) = rd16 f (14 + o) := fun o ho =>
    rd16_congr fun k hk => by rw [Nat.add_assoc]; exact hfg _ (by omega)
  have hhw : rd16 g 14 = rd16 f 14 := hword 0 (by omega)
  have hhead : slice g 14 6 = slice f 14 6 := hslice 0 6 (by omega)
  simp only [arpIn, hhw, hhead, hword 2 (by omega), hword 6 (by omega), hslice 24 4 (by omega),
    hslice 8 6 (by omega), hslice 14 4 (by omega)]

theorem tcpInData_congr (net : Net n) (h : TcpHdr) (i : Fin n)
    (hdata : h.dlen ≠ 0 → h.seq = (net.conns i).rcvNxt →
      ∀ k < (rcvStore f h.dlen (h.off + h.toff) (net.conns i)).2,
        g (h.off + h.toff + k) = f (h.off + h.toff + k)) :
    tcpInData g net h i = tcpInData f net h i := by
  unfold tcpInData
  split
  · rfl
  next hd =>
    dsimp only
    by_cases hseq : h.seq = (net.conns i).rcvNxt
    · rw [if_pos hseq, if_pos hseq, rcvStore_congr _ _ _ (hdata hd hseq)]
    · rw [if_neg hseq, if_neg hseq]

/-- When the establishing block lets a segment through, the slot is established by now. -/
theorem tcpInSynrcvd_estab {net net' : Net n} {h : TcpHdr} {i : Fin n}
    (hs : tcpInSynrcvd net h i = some net') (hst : (net'.conns i).tstate = .estab) :
    (net.conns i).tstate = .estab ∨
      (net.conns i).tstate = .synrcvd ∧
        (hasFlag h.flags 0x10 && h.ack = (net.conns i).sndNxt) = true := by
  unfold tcpInSynrcvd at hs
  dsimp only at hs
  split at hs
  next hsyn =>
    split at hs
    next hack => exact .inr ⟨hsyn, hack⟩
    next => cases hs
  next =>
    cases hs
    exact .inl hst

theorem tcpInConn_congr (now : BitVec 32) (net : Net n) (h : TcpHdr) (i : Fin n)
    (hdata : ((net.conns i).tstate = .estab ∨ (net.conns i).tstate = .synrcvd ∧
        (hasFlag h.flags 0x10 && h.ack = (net.conns i).sndNxt) = true) →
      h.dlen ≠ 0 → h.seq = (net.conns i).rcvNxt →
      ∀ k < (rcvStore f h.dlen (h.off + h.toff) (net.conns i)).2,
        g (h.off + h.toff + k) = f (h.off + h.toff + k)) :
    tcpInConn now g net h i = tcpInConn now f net h i := by
  unfold tcpInConn
  split
  · rfl
  next net' hs =>
    split
    · rfl
    next hst =>
      rw [not_not] at hst
      have hfirst := tcpInSynrcvd_sameRcv hs
      have hack := tcpInAck_sameRcv now h (net'.conns i)
      dsimp only
      rw [tcpInData_congr _ h i]
      rw [Net.set_conns_self, hack.nxt, hfirst.nxt]
      intro hd hseq
      rw [rcvStore_count_congr f _ _ _ (net.conns i) (hack.head.trans hfirst.head)
        (hack.tail.trans hfirst.tail)]
      exact hdata (tcpInSynrcvd_estab hs hst) hd hseq

/-- What `tcp_in` does depends on the offsets it uses only. -/
theorem tcpIn_congr (now : BitVec 32) (net : Net n) (hfg : ∀ k, TcpUses net f k → g k = f k) :
    tcpIn now net g = tcpIn now net f := by
  have h14 : g 14 = f 14 := hfg _ .ihl
  have hport : (tcpHdr g).dport = (tcpHdr f).dport := by
    have hword : rd16 g ((tcpHdr f).off + 2) = rd16 f ((tcpHdr f).off + 2) :=
      rd16_congr fun k hk => hfg _ (.dport hk)
    simp only [tcpHdr] at hword ⊢
    rw [h14, hword]
  by_cases hmy : (tcpHdr f).dport = net.myPort
  · have hlen : rd16 g 16 = rd16 f 16 := rd16_congr fun k hk => hfg _ (.total hmy hk)
    have htcplen : (tcpHdr g).tcplen = (tcpHdr f).tcplen := by
      simp only [tcpHdr]
      rw [h14, hlen]
    have htoff : (tcpHdr g).toff = (tcpHdr f).toff := by
      have hbyte := hfg _ (.toff hmy)
      simp only [tcpHdr] at hbyte ⊢
      rw [h14, hbyte]
    by_cases hshort : (tcpHdr f).tcplen < (tcpHdr f).toff
    · simp [tcpIn, hport, htcplen, htoff, hmy, hshort]
    · rw [Nat.not_lt] at hshort
      have hhdr : tcpHdr g = tcpHdr f :=
        tcpHdr_congr h14 (fun k hk => hfg _ (.total hmy hk))
          (fun k hk => hfg _ (.srcMac hmy hshort hk)) (fun k hk => hfg _ (.srcIp hmy hshort hk))
          (fun k hk => hfg _ (.header hmy hshort hk))
      unfold tcpIn
      dsimp only
      rw [hhdr]
      split
      · rfl
      split
      · rfl
      split
      · rfl
      next hrst =>
        split
        · rfl
        next hsyn =>
          split
          · rfl
          next i hfind =>
            refine tcpInConn_congr now net _ i fun hst hd hseq k hk => ?_
            refine hfg _ (.data hmy hshort ?_ hk)
            simp only [storeSlot, hrst, hsyn, hd, hfind]
            rcases hst with hst | ⟨hst, hack⟩
            · simp [hst, hseq]
            · simp [hst, hseq, hack]
  · simp [tcpIn, hport, hmy]

/-- What `handle_frame` does depends on the offsets it uses only. -/
theorem handleFrame_congr (now : BitVec 32) (net : Net n) (len : Nat)
    (hfg : ∀ k, FrameUses net f len k → g k = f k) :
    handleFrame now net g len = handleFrame now net f len := by
  unfold handleFrame
  split
  · rfl
  next h14 =>
    rw [Nat.not_lt] at h14
    have het : rd16 g 12 = rd16 f 12 := rd16_congr fun k hk => hfg _ (.ethertype h14 hk)
    dsimp only
    rw [het]
    split
    next harp =>
      by_cases h42 : 14 + 28 ≤ len
      · exact arpIn_congr net len fun k hk => hfg _ (.arp h42 harp hk)
      · simp [arpIn, show len < 42 by omega]
    next =>
      split
      · rfl
      next hip =>
        split
        · rfl
        next h34 =>
          rw [not_not] at hip
          rw [Nat.not_lt] at h34
          have hbyte : ∀ k < 20, g (14 + k) = f (14 + k) := fun k hk => hfg _ (.ip h34 hip hk)
          have hdst : slice g 30 4 = slice f 30 4 := slice_congr fun k hk => by
            have hb := hbyte (16 + k) (by omega)
            rwa [← Nat.add_assoc] at hb
          rw [hdst, show g 14 = f 14 from hbyte 0 (by omega), show g 23 = f 23 from hbyte 9 (by omega)]
          split
          · rfl
          next hver =>
            split
            · rfl
            next hme =>
              split
              next hproto =>
                rw [not_not] at hver hme
                refine tcpIn_congr now net fun k hk => hfg k (.tcp ?_ hk)
                simp [tcpFrame, hip, hver, hme, hproto]
                omega
              next => rfl

end

/-! ## Frames that are read as received -/

/-- What is wanted of `handle_frame`: all it acts on is among the `len` received bytes,
and the length `dlen` of the data comes from no subtraction that wrapped. -/
structure ReadsFrame (net : Net n) (f : Nat → UInt8) (len : Nat) : Prop where
  inside : ∀ k, FrameUses net f len k → k < len
  unwrapped : tcpFrame net f len = true → (tcpHdr f).dport = net.myPort →
    (tcpHdr f).toff ≤ (tcpHdr f).tcplen →
      (tcpHdr f).dlen + (tcpHdr f).toff + ((tcpHdr f).off - 14) = rd16 f 16

/-- A TCP frame for us is long enough for its headers: up to the destination port, and
if this is our port up to the flags.  Its total length covers the IP header.  And if the
segment continues a connection with data, the data ends in the frame as far as the ring
has room for it. -/
structure Covered (net : Net n) (f : Nat → UInt8) (len : Nat) : Prop where
  port : (tcpHdr f).off + 4 ≤ len
  toff : (tcpHdr f).dport = net.myPort → (tcpHdr f).off + 13 ≤ len
  total : (tcpHdr f).dport = net.myPort → (tcpHdr f).off ≤ 14 + rd16 f 16
  flags : (tcpHdr f).dport = net.myPort → (tcpHdr f).toff ≤ (tcpHdr f).tcplen →
    (tcpHdr f).off + 14 ≤ len
  data : (tcpHdr f).dport = net.myPort → (tcpHdr f).toff ≤ (tcpHdr f).tcplen →
    ∀ i, storeSlot net (tcpHdr f) = some i → 0 < (net.conns i).rcvRoom →
      (tcpHdr f).off + (tcpHdr f).toff + min (tcpHdr f).dlen (net.conns i).rcvRoom ≤ len

theorem tcpHdr_off_le (f : Nat → UInt8) : 14 ≤ (tcpHdr f).off ∧ (tcpHdr f).off ≤ 74 := by
  have hihl : (f 14 &&& 0x0F).toNat ≤ 15 := by
    rw [UInt8.toNat_and]
    exact Nat.and_le_right
  simp only [tcpHdr]
  omega

theorem tcpHdr_toff_le (f : Nat → UInt8) : (tcpHdr f).toff ≤ 60 := by
  have hnib : ∀ b : UInt8, (b >>> 4).toNat * 4 ≤ 60 := forall_byte (by decide +kernel)
  exact hnib _

theorem tcpHdr_tcplen (f : Nat → UInt8) :
    (tcpHdr f).tcplen = (rd16 f 16 + 65536 - ((tcpHdr f).off - 14)) % 65536 := by
  simp [tcpHdr]

/-- A total length below the IP header passes the test of `tcp_in`. -/
theorem toff_le_of_wrapped {f : Nat → UInt8} (h : 14 + rd16 f 16 < (tcpHdr f).off) :
    (tcpHdr f).toff ≤ (tcpHdr f).tcplen := by
  have hoff := tcpHdr_off_le f
  have htoff := tcpHdr_toff_le f
  have hlen := tcpHdr_tcplen f
  omega

theorem tcpFrame_length {net : Net n} {f : Nat → UInt8} {len : Nat}
    (h : tcpFrame net f len = true) : 14 + 20 ≤ len := by
  simp only [tcpFrame, Bool.and_eq_true, decide_eq_true_eq] at h
  exact h.1.1.1.1

theorem storeSlot_dlen {net : Net n} {h : TcpHdr} {i : Fin n} (hi : storeSlot net h = some i) :
    0 < h.dlen := by
  unfold storeSlot at hi
  split at hi
  · cases hi
  next hc =>
    simp only [Bool.or_eq_true, decide_eq_true_eq, not_or] at hc
    exact Nat.pos_of_ne_zero hc.2

section

variable {net : Net n} {f : Nat → UInt8} {len : Nat}

/-- The condition is enough. -/
theorem Covered.readsFrame (hr : NetReach net)
    (h : tcpFrame net f len = true → Covered net f len) : ReadsFrame net f len := by
  refine ⟨fun k hk => ?_, fun htcp hport htoff => ?_⟩
  · cases hk with
    | ethertype hlen hk => omega
    | arp hlen het hk => omega
    | ip hlen het hk => omega
    | tcp htcp hk =>
        have hcov := h htcp
        have hlen := tcpFrame_length htcp
        have hp := hcov.port
        cases hk with
        | ihl => omega
        | dport hk => omega
        | total hport hk => omega
        | toff hport =>
            have ht := hcov.toff hport
            omega
        | header hport htoff hk =>
            have hf := hcov.flags hport htoff
            omega
        | srcIp hport htoff hk => omega
        | srcMac hport htoff hk => omega
        | data hport htoff hi hk =>
            rw [rcvStore_count f _ _ _ (hr.rcvIndexed _)] at hk
            have hd := hcov.data hport htoff _ hi (by omega)
            omega
  · have htotal := (h htcp).total hport
    have hoff := tcpHdr_off_le f
    have hlt := rd16_lt f 16
    rw [TcpHdr.dlen]
    rw [tcpHdr_tcplen] at htoff ⊢
    omega

/-- The condition is needed. -/
theorem ReadsFrame.covered (hr : NetReach net) (h : ReadsFrame net f len)
    (htcp : tcpFrame net f len = true) : Covered net f len := by
  have hlen := tcpFrame_length htcp
  refine ⟨?_, fun hport => ?_, fun hport => ?_, fun hport htoff => ?_, fun hport htoff i hi hroom => ?_⟩
  · have hlast := h.inside _ (.tcp htcp (.dport (k := 1) (by omega)))
    omega
  · have hlast := h.inside _ (.tcp htcp (.toff hport))
    omega
  · by_contra hwrap
    rw [Nat.not_le] at hwrap
    have htoff := toff_le_of_wrapped hwrap
    have hun := h.unwrapped htcp hport htoff
    have hoff := tcpHdr_off_le f
    omega
  · have hlast := h.inside _ (.tcp htcp (.header hport htoff (k := 13) (by omega)))
    omega
  · have hd := storeSlot_dlen hi
    have hlast := h.inside _ (.tcp htcp (.data hport htoff hi
      (k := min (tcpHdr f).dlen (net.conns i).rcvRoom - 1)
      (by rw [rcvStore_count f _ _ _ (hr.rcvIndexed _)]; omega)))
    omega

end

/-- `handle_frame` reads the received bytes only, and no wrapped length, exactly when
the lengths in the headers of a TCP frame are covered by the frame.  Then what the
buffer holds behind the frame does not matter. -/
theorem tcp_in_reads_frame_iff {net : Net n} (hr : NetReach net) (f : Nat → UInt8) (len : Nat) :
    (ReadsFrame net f len ↔ (tcpFrame net f len = true → Covered net f len)) ∧
      ((tcpFrame net f len = true → Covered net f len) →
        ∀ (now : BitVec 32) (g : Nat → UInt8), (∀ k < len, g k = f k) →
          handleFrame now net g len = handleFrame now net f len) := by
  refine ⟨⟨fun h => h.covered hr, Covered.readsFrame hr⟩, fun h now g hfg => ?_⟩
  have hreads := Covered.readsFrame hr h
  exact handleFrame_congr now net len fun k hk => hfg k (hreads.inside k hk)

/-- A client that connected and sent `hi`. -/
def clientRun : Net 2 :=
  netRun [.poll 0 (some sampleSyn), .poll 1 (some (sampleData 0 [104, 105]))] sampleOpen

/-- The work buffer when the client of `clientRun` sends one more packet. -/
def sampleWork (pkt : List UInt8) : Nat → UInt8 := overlay clientRun.work 0 pkt

theorem tcp_in_reads_frame_iff_clientRun :
    NetReach clientRun ∧
      ReadsFrame clientRun (sampleWork (sampleData 2 [33])) (sampleData 2 [33]).length := by
  have hr : NetReach clientRun := ⟨_, _, _, _, rfl⟩
  refine ⟨hr, (tcp_in_reads_frame_iff hr _ _).1.mpr fun _ => ?_⟩
  refine ⟨by decide +kernel, (fun _ => by decide +kernel), (fun _ => by decide +kernel),
    (fun _ _ => by decide +kernel), fun _ _ => ?_⟩
  decide +kernel

/-- A frame that ends with its headers and announces two bytes of data. -/
def shortFrame : List UInt8 := (sampleData 2 [120, 121]).take 54

/-- A frame whose total length is zero. -/
def wrappedFrame : List UInt8 := ((sampleData 2 []).set 16 0).set 17 0

/-- After the short frame the client's first bytes are read again, out of the rest of
its first frame.  The frame with the wrapped length fills the ring. -/
theorem stale_bytes_received :
    NetReach clientRun ∧
      ¬ ReadsFrame clientRun (sampleWork shortFrame) shortFrame.length ∧
      rxBytes 0 1 [.rxGetc 0, .rxGetc 0, .poll 2 (some shortFrame), .rxGetc 0, .rxGetc 0]
        clientRun = [104, 105, 104, 105] ∧
      ¬ ReadsFrame clientRun (sampleWork wrappedFrame) wrappedFrame.length ∧
      ((netPoll 2 (some wrappedFrame) clientRun).conns 0).rcvUsed = RCV_SZ - 1 := by
  have hr : NetReach clientRun := ⟨_, _, _, _, rfl⟩
  refine ⟨hr, fun h => ?_, by decide +kernel, fun h => ?_, by decide +kernel⟩
  · have hdata := (h.covered hr (by decide +kernel)).data (by decide +kernel) (by decide +kernel) 0
      (by decide +kernel) (by decide +kernel)
    revert hdata
    decide +kernel
  · have htotal := (h.covered hr (by decide +kernel)).total (by decide +kernel)
    revert htotal
    decide +kernel

end Dossh
