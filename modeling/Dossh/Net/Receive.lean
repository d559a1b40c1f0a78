import Dossh.Net.Rollback

/-!
# The receive stream

The data of a connection goes through its receive ring: `tcp_in` stores the bytes
of a segment that begins where the stream stands, as many as the ring has room
for, and `net_rx_getc` takes them out.  A segment that begins elsewhere is only
acknowledged again.

`Conn.RcvAct` lists what the stack does to the receiving side of a slot: nothing,
the end of the connection, or the storing loop of a segment that was found to
belong to it.  Every call of the interface but `net_rx_getc` is a sequence of
these.  The stream view of the ring (`Conn.Buffers`) is kept by each of them, for a
peer that sends every segment with the bytes of one stream at the segment's
sequence number.
-/

namespace Dossh

variable {n : Nat}

/-! ## What a call does to the receiving side -/

/-- The receiving side and the peer of a slot are as before, and it is free if it was
free. -/
structure Conn.SameRcv (c c' : Conn) : Prop where
  gen : c'.gen = c.gen
  free : c'.tstate = .listen ↔ c.tstate = .listen
  ip : c'.peerIp = c.peerIp
  port : c'.peerPort = c.peerPort
  buf : c'.rbuf = c.rbuf
  head : c'.rHead = c.rHead
  tail : c'.rTail = c.rTail
  nxt : c'.rcvNxt = c.rcvNxt

/-- The connection is over: its slot is free, or carries a later one, and the ring
is empty. -/
structure Conn.Over (c c' : Conn) : Prop where
  gen : c.gen < c'.gen ∨ c.gen = c'.gen ∧ c'.tstate = .listen
  head : c'.rHead = 0
  tail : c'.rTail = 0

/-- The slot after the storing loop of the segment in `f`. -/
def Conn.stored (c : Conn) (f : Nat → UInt8) : Conn :=
  let h := tcpHdr f
  let r := rcvStore f h.dlen (h.off + h.toff) c
  { r.1 with rcvNxt := c.rcvNxt + BitVec.ofNat 32 r.2 }

/-- What the stack does to the receiving side of a slot, with frames in `V`. -/
inductive Conn.RcvAct (V : (Nat → UInt8) → Prop) (c : Conn) : Conn → Prop where
  | same {c' : Conn} (h : c.SameRcv c') : Conn.RcvAct V c c'
  | ended {c' : Conn} (h : c.Over c') : Conn.RcvAct V c c'
  | store (f : Nat → UInt8) (hv : V f) (hst : c.tstate = .estab)
      (hip : c.peerIp = (tcpHdr f).srcIp) (hport : c.peerPort = (tcpHdr f).sport)
      (hsyn : hasFlag (tcpHdr f).flags 0x02 = false) (hseq : (tcpHdr f).seq = c.rcvNxt) :
      Conn.RcvAct V c (c.stored f)

/-- A sequence of such acts. -/
def Conn.RcvActs (V : (Nat → UInt8) → Prop) : Conn → Conn → Prop :=
  Relation.ReflTransGen (Conn.RcvAct V)

variable {V : (Nat → UInt8) → Prop} {c c' c'' : Conn}

namespace Conn.RcvActs

theorem refl (c : Conn) : c.RcvActs V c := Relation.ReflTransGen.refl

theorem trans (h : c.RcvActs V c') (h' : c'.RcvActs V c'') : c.RcvActs V c'' :=
  Relation.ReflTransGen.trans h h'

theorem same (h : c.SameRcv c') : c.RcvActs V c' := Relation.ReflTransGen.single (.same h)

theorem ended (h : c.Over c') : c.RcvActs V c' := Relation.ReflTransGen.single (.ended h)

/-- An invariant of every act is an invariant of a sequence of acts. -/
theorem preserves {P : Conn → Prop} (hP : ∀ c c', P c → Conn.RcvAct V c c' → P c')
    (h : c.RcvActs V c') (h0 : P c) : P c' := by
  induction h with
  | refl => exact h0
  | tail _ hact ih => exact hP _ _ ih hact

end Conn.RcvActs

theorem tcpResetListen_over (c : Conn) : c.Over (tcpResetListen c) :=
  ⟨.inr ⟨rfl, rfl⟩, rfl, rfl⟩

theorem Conn.timer_rcvActs (now : BitVec 32) (c : Conn) : c.RcvActs V (c.timer now) := by
  unfold Conn.timer
  split
  · split
    · exact .ended ⟨.inr ⟨rfl, rfl⟩, rfl, rfl⟩
    · exact .same ⟨rfl, Iff.rfl, rfl, rfl, rfl, rfl, rfl, rfl⟩
  · exact .refl c

theorem Conn.Flushed.rcvActs (h : c.Flushed c') : c.RcvActs V c' := by
  rw [h.same]
  exact .same ⟨rfl, Iff.rfl, rfl, rfl, rfl, rfl, rfl, rfl⟩

theorem tcpInAck_sameRcv (now : BitVec 32) (h : TcpHdr) (c : Conn) :
    c.SameRcv (tcpInAck now h c) := by
  unfold tcpInAck
  split <;> exact ⟨rfl, Iff.rfl, rfl, rfl, rfl, rfl, rfl, rfl⟩

/-- A slot that one `set` of a function touches. -/
theorem Conn.RcvActs.of_set {net : Net n} {i : Fin n} (h : (net.conns i).RcvActs V c)
    (j : Fin n) : (net.conns j).RcvActs V ((net.set i c).conns j) := by
  rw [Net.set_conns]
  split
  next hji =>
    subst hji
    exact h
  next => exact .refl _

/-- A slot of which one `set` keeps the receiving side. -/
theorem Conn.SameRcv.of_set {net : Net n} {i : Fin n} (h : (net.conns i).SameRcv c) (j : Fin n) :
    (net.conns j).RcvActs V ((net.set i c).conns j) := Conn.RcvActs.of_set (.same h) j

/-! ### Segments -/

/-- The establishing block leaves the receiving side alone. -/
theorem tcpInSynrcvd_sameRcv {net net' : Net n} {h : TcpHdr} {i : Fin n}
    (hs : tcpInSynrcvd net h i = some net') : (net.conns i).SameRcv (net'.conns i) := by
  unfold tcpInSynrcvd at hs
  dsimp only at hs
  split at hs
  next hst =>
    split at hs
    · cases hs
      rw [Net.set_conns_self]
      exact ⟨rfl, by simp [hst], rfl, rfl, rfl, rfl, rfl, rfl⟩
    · cases hs
  next =>
    cases hs
    exact ⟨rfl, Iff.rfl, rfl, rfl, rfl, rfl, rfl, rfl⟩

/-- In-order data is stored and acknowledged. -/
theorem tcpInData_inOrder {f : Nat → UInt8} {net : Net n} {i : Fin n}
    (hlen : (tcpHdr f).dlen ≠ 0) (hseq : (tcpHdr f).seq = (net.conns i).rcvNxt) :
    tcpInData f net (tcpHdr f) i =
      tcpSendSeg (net.set i ((net.conns i).stored f)) i 0x10 false 0 0 := by
  unfold tcpInData
  dsimp only
  rw [if_neg hlen, if_pos hseq]
  rfl

theorem tcpInData_rcvActs {f : Nat → UInt8} (hv : V f) (net : Net n) (i : Fin n)
    (hst : (net.conns i).tstate = .estab) (hip : (net.conns i).peerIp = (tcpHdr f).srcIp)
    (hport : (net.conns i).peerPort = (tcpHdr f).sport)
    (hsyn : hasFlag (tcpHdr f).flags 0x02 = false) :
    (net.conns i).RcvActs V ((tcpInData f net (tcpHdr f) i).conns i) := by
  rcases tcpInData_cases f net (tcpHdr f) i with ⟨-, heq⟩ | ⟨hlen, c, -, hkeep, heq⟩
  · rw [heq]
    exact .refl _
  by_cases hseq : (tcpHdr f).seq = (net.conns i).rcvNxt
  · rw [tcpInData_inOrder hlen hseq, tcpSendSeg_conns, Net.set_conns_self]
    exact Relation.ReflTransGen.single (.store f hv hst hip hport hsyn hseq)
  · rw [heq, tcpSendSeg_conns, Net.set_conns_self, hkeep hseq]
    exact .refl _

theorem tcpInFin_rcvActs (net : Net n) (h : TcpHdr) (i : Fin n) :
    (net.conns i).RcvActs V ((tcpInFin net h i).conns i) := by
  unfold tcpInFin
  split
  · rw [Net.set_conns_self]
    refine .ended ⟨.inr ⟨?_, rfl⟩, rfl, rfl⟩
    rw [tcpSendSeg_conns, Net.set_conns_self]
    rfl
  · exact .refl _

theorem tcpInConn_rcvActs (now : BitVec 32) {f : Nat → UInt8} (hv : V f) (net : Net n)
    (i : Fin n) (hip : (net.conns i).peerIp = (tcpHdr f).srcIp)
    (hport : (net.conns i).peerPort = (tcpHdr f).sport)
    (hsyn : hasFlag (tcpHdr f).flags 0x02 = false) :
    (net.conns i).RcvActs V ((tcpInConn now f net (tcpHdr f) i).conns i) := by
  unfold tcpInConn
  split
  · exact .refl _
  next net' hs =>
    have hfirst := tcpInSynrcvd_sameRcv hs
    refine Conn.RcvActs.trans (.same hfirst) ?_
    split
    · exact .refl _
    next hst =>
      rw [not_not] at hst
      have hack := tcpInAck_sameRcv now (tcpHdr f) (net'.conns i)
      have hdata := tcpInData_rcvActs hv (net'.set i (tcpInAck now (tcpHdr f) (net'.conns i))) i
        (by rw [Net.set_conns_self, tcpInAck_tstate, hst])
        (by rw [Net.set_conns_self, hack.ip, hfirst.ip, hip])
        (by rw [Net.set_conns_self, hack.port, hfirst.port, hport]) hsyn
      rw [Net.set_conns_self] at hdata
      exact ((Conn.RcvActs.same hack).trans hdata).trans (tcpInFin_rcvActs _ _ i)

theorem findConn_peer {net : Net n} {sport : Nat} {ip : List UInt8} {i : Fin n}
    (h : findConn net sport ip = some i) :
    (net.conns i).peerPort = sport ∧ (net.conns i).peerIp = ip := by
  have hp := List.find?_some h
  simp only [Bool.and_eq_true, decide_eq_true_eq] at hp
  exact ⟨hp.1.2, hp.2⟩

/-- A SYN that takes a slot ends the connection the slot carried. -/
theorem tcpInSynAccept_over (now : BitVec 32) (net : Net n) (h : TcpHdr) (i : Fin n) :
    (net.conns i).Over ((tcpInSynAccept now net h i).conns i) := by
  simp only [tcpInSynAccept, Net.set_conns_self]
  exact ⟨.inl (Nat.lt_succ_self _), rfl, rfl⟩

theorem tcpIn_rcvActs (now : BitVec 32) (net : Net n) {f : Nat → UInt8} (hv : V f) (j : Fin n) :
    (net.conns j).RcvActs V ((tcpIn now net f).conns j) := by
  unfold tcpIn
  dsimp only
  split
  · exact .refl _
  split
  · exact .refl _
  split
  · unfold tcpInRst
    split
    next i _ => exact Conn.RcvActs.of_set (.ended (tcpResetListen_over _)) j
    next => exact .refl _
  split
  · unfold tcpInSyn
    split
    · exact .refl _
    · split
      · exact .refl _
      next i _ =>
        by_cases hji : j = i
        · subst hji
          exact .ended (tcpInSynAccept_over now net _ j)
        · simp only [tcpInSynAccept, Net.set_conns_ne _ _ hji, tcpSendSeg_conns, Net.note_conns]
          exact .refl _
  next hsyn =>
    split
    · exact .refl _
    next i hfind =>
      obtain ⟨hport, hip⟩ := findConn_peer hfind
      by_cases hji : j = i
      · subst hji
        exact tcpInConn_rcvActs now hv net j hip hport (Bool.eq_false_iff.mpr hsyn)
      · rw [tcpInConn_other now f net _ hji]
        exact .refl _

/-- The frames of a call: the work buffer after a packet was copied over it, when
`handle_frame` hands it to `tcp_in`. -/
def NetOp.frame (op : NetOp n) (net : Net n) (f : Nat → UInt8) : Prop :=
  ∃ now stage, op = .poll now (some stage) ∧ f = overlay net.work 0 (stage.take WORK_SZ) ∧
    tcpFrame net f (stage.take WORK_SZ).length = true

theorem handleFrame_rcvActs (now : BitVec 32) (net : Net n) (f : Nat → UInt8) (len : Nat)
    (hv : tcpFrame net f len = true → V f) (j : Fin n) :
    (net.conns j).RcvActs V ((handleFrame now net f len).conns j) := by
  cases htcp : tcpFrame net f len with
  | true =>
      rw [handleFrame_tcp now net f len htcp]
      exact tcpIn_rcvActs now net (hv htcp) j
  | false =>
      rcases handleFrame_other now net f len htcp with heq | heq
      · rw [heq]
        exact .refl _
      · have harp : (arpIn net f len).conns = net.conns := by
          unfold arpIn
          dsimp only
          repeat' split
          all_goals rfl
        rw [heq, harp]
        exact .refl _

theorem netPoll_rcvActs (now : BitVec 32) (pkt : Option (List UInt8)) (net : Net n) (j : Fin n) :
    (net.conns j).RcvActs (NetOp.frame (.poll now pkt) net) ((netPoll now pkt net).conns j) := by
  have htimer : (net.conns j).RcvActs (NetOp.frame (.poll now pkt) net)
      ((netTimers now net).conns j) := by
    rw [netTimers_conns]
    exact Conn.timer_rcvActs now _
  refine htimer.trans (Conn.RcvActs.trans ?_ (netTxFlush_conns now _ j).rcvActs)
  unfold netReceive
  cases pkt with
  | none => exact .refl _
  | some stage =>
      obtain ⟨hwork, hip, _⟩ := netTimers_frame now net
      dsimp only
      rw [hwork]
      refine handleFrame_rcvActs now
        { netTimers now net with work := overlay net.work 0 (stage.take WORK_SZ) } _ _ ?_ j
      intro htcp
      refine ⟨now, stage, rfl, rfl, ?_⟩
      rw [← htcp]
      simp only [tcpFrame, hip]

/-! ### The other calls -/

theorem putcCheck_rcvActs (j : Fin n) :
    ∀ (is : List (Fin n)) (net : Net n), (net.conns j).RcvActs V ((putcCheck is net).2.conns j)
  | [], _ => .refl _
  | i :: is, net => by
      rw [putcCheck]
      split
      · split
        · exact (Conn.RcvActs.of_set (.ended (tcpResetListen_over _)) j).trans
            (putcCheck_rcvActs j is _)
        · exact .refl _
      · exact putcCheck_rcvActs j is net

theorem ringAppend_rcvActs (kind : TxKind) (net : Net n) (i : Fin n) (b : UInt8) (j : Fin n) :
    (net.conns j).RcvActs V ((ringAppend kind net i b).conns j) := by
  refine @Conn.SameRcv.of_set n V _ (net.note (.append kind i (net.conns i).gen b)) i ?_ j
  exact ⟨rfl, Iff.rfl, rfl, rfl, rfl, rfl, rfl, rfl⟩

theorem putcAppend_rcvActs (b : UInt8) (j : Fin n) :
    ∀ (is : List (Fin n)) (net : Net n),
      (net.conns j).RcvActs V ((is.foldl (putcAppend b) net).conns j)
  | [], _ => .refl _
  | i :: is, net => by
      refine Conn.RcvActs.trans ?_ (putcAppend_rcvActs b j is (putcAppend b net i))
      unfold putcAppend
      split
      · exact ringAppend_rcvActs .screen net i b j
      · exact .refl _

/-- Every call but `net_rx_getc` on the slot itself is a sequence of acts on its
receiving side. -/
theorem NetOp.rcvActs (op : NetOp n) (net : Net n) (j : Fin n) (hop : op ≠ .rxGetc j) :
    (net.conns j).RcvActs (op.frame net) ((op.run net).conns j) := by
  cases op with
  | poll now pkt => exact netPoll_rcvActs now pkt net j
  | takeNew =>
      simp only [NetOp.run, netTakeNewSlot]
      split
      · refine Conn.SameRcv.of_set ?_ j
        exact ⟨rfl, Iff.rfl, rfl, rfl, rfl, rfl, rfl, rfl⟩
      · exact .refl _
  | putc b =>
      simp only [NetOp.run, netTxPutc]
      split
      · exact (putcCheck_rcvActs j _ net).trans (putcAppend_rcvActs b j _ _)
      · exact putcCheck_rcvActs j _ net
  | putcSlot i b =>
      simp only [NetOp.run, netTxPutcSlot]
      split
      · exact .refl _
      · exact ringAppend_rcvActs .unicast net i b j
  | flush now => exact (netTxFlush_conns now net j).rcvActs
  | slotReady i v =>
      have hconns : (if v then net.note (.admitted i (net.conns i).gen) else net).conns = net.conns := by
        split <;> rfl
      simp only [NetOp.run, netSlotReady, Net.set_conns, hconns]
      split
      next hji =>
        subst hji
        exact .same ⟨rfl, Iff.rfl, rfl, rfl, rfl, rfl, rfl, rfl⟩
      next => exact .refl _
  | slotDrop i =>
      have hconns : (if (net.conns i).tstate = .estab then tcpSendSeg net i 0x14 false 0 0
          else net).conns = net.conns := by
        split <;> rfl
      simp only [NetOp.run, netSlotDrop, Net.set_conns, hconns]
      split
      next hji =>
        subst hji
        exact .ended (tcpResetListen_over _)
      next => exact .refl _
  | rxGetc i =>
      have hne : j ≠ i := fun h => hop (by rw [h])
      simp only [NetOp.run, netRxGetc]
      split
      · exact .refl _
      · rw [Net.set_conns_ne _ _ hne]
        exact .refl _

/-! ## The ring as a window of the stream -/

/-- The number of bytes in the receive ring. -/
def Conn.rcvUsed (c : Conn) : Nat := Ring.dist RCV_SZ c.rHead c.rTail

/-- The ring holds the bytes of the stream `S` from position `t` up to `m`. -/
structure Conn.Buffers (c : Conn) (S : List UInt8) (t m : Nat) : Prop where
  tail : c.rTail = t % RCV_SZ
  head : c.rHead = m % RCV_SZ
  le : t ≤ m
  room : m - t < RCV_SZ
  len : m ≤ S.length
  holds : Ring.Holds RCV_SZ c.rbuf (S.take m) t

theorem Conn.Buffers.rcvUsed_eq {S : List UInt8} {t m : Nat} (h : c.Buffers S t m) :
    c.rcvUsed = m - t := by
  rw [Conn.rcvUsed, h.head, h.tail, Ring.dist_mod h.le h.room]

/-- An empty ring at the start of the stream. -/
theorem Conn.Buffers.start (S : List UInt8) (hhead : c.rHead = 0) (htail : c.rTail = 0) :
    c.Buffers S 0 0 :=
  ⟨htail, hhead, Nat.le_refl 0, by decide, Nat.zero_le _, Ring.Holds.nil _ _ _⟩

/-- The slot after one turn of the storing loop. -/
def Conn.keep (c : Conn) (b : UInt8) : Conn :=
  { c with rbuf := Function.update c.rbuf c.rHead b, rHead := (c.rHead + 1) % RCV_SZ }

theorem rcvStore_full (f : Nat → UInt8) (k o : Nat) (h : (c.rHead + 1) % RCV_SZ = c.rTail) :
    rcvStore f (k + 1) o c = (c, 0) := by
  rw [rcvStore]
  exact if_pos h

theorem rcvStore_keep (f : Nat → UInt8) (k o : Nat) (h : (c.rHead + 1) % RCV_SZ ≠ c.rTail) :
    rcvStore f (k + 1) o c =
      ((rcvStore f k (o + 1) (c.keep (f o))).1, (rcvStore f k (o + 1) (c.keep (f o))).2 + 1) := by
  rw [rcvStore]
  exact if_neg h

/-- One byte goes into the ring where the stream stands. -/
theorem Conn.Buffers.push {S : List UInt8} {t m : Nat} (h : c.Buffers S t m)
    (hroom : (c.rHead + 1) % RCV_SZ ≠ c.rTail) {b : UInt8} (hb : S[m]? = some b) :
    (c.keep b).Buffers S t (m + 1) := by
  obtain ⟨hlt, hget⟩ := List.getElem?_eq_some_iff.mp hb
  have hle := h.le
  have hm := h.room
  have hroom' : m + 1 - t < RCV_SZ := by
    by_contra hfull
    -- a full ring has its head right behind its tail
    have heq : m + 1 = t + RCV_SZ := by omega
    apply hroom
    rw [h.head, h.tail, Nat.mod_add_mod, heq, Nat.add_mod_right]
  have htake : S.take (m + 1) = S.take m ++ [b] := by
    rw [List.take_add_one, hb]
    rfl
  refine ⟨h.tail, ?_, by omega, hroom', hlt, ?_⟩
  · show (c.rHead + 1) % RCV_SZ = (m + 1) % RCV_SZ
    rw [h.head, Nat.mod_add_mod]
  · have hlen : (S.take m).length = m := by
      rw [List.length_take]
      omega
    have hpush := h.holds.push (by omega) b
    rw [hlen, ← h.head] at hpush
    rw [htake]
    exact hpush

/-- The storing loop over bytes of the stream. -/
theorem rcvStore_buffers (f : Nat → UInt8) {S : List UInt8} {t : Nat} :
    ∀ (k o : Nat) (c : Conn) (m : Nat), c.Buffers S t m →
      (∀ j < k, S[m + j]? = some (f (o + j))) →
      (rcvStore f k o c).1.Buffers S t (m + (rcvStore f k o c).2)
  | 0, _, _, _, h, _ => h
  | k + 1, o, c, m, h, hbytes => by
      by_cases hroom : (c.rHead + 1) % RCV_SZ = c.rTail
      · rw [rcvStore_full f k o hroom]
        exact h
      · rw [rcvStore_keep f k o hroom]
        have hpush := h.push hroom (hbytes 0 (Nat.zero_lt_succ k))
        have ih := rcvStore_buffers f k (o + 1) _ (m + 1) hpush fun j hj => by
          have hj' := hbytes (j + 1) (by omega)
          rwa [Nat.add_comm j 1, ← Nat.add_assoc, ← Nat.add_assoc] at hj'
        rw [Nat.add_assoc, Nat.add_comm 1] at ih
        exact ih

/-- One byte comes out of the ring. -/
theorem Conn.Buffers.pop {S : List UInt8} {t m : Nat} (h : c.Buffers S t m)
    (hne : c.rTail ≠ c.rHead) :
    S[t]? = some (c.rbuf c.rTail) ∧
      ({ c with rTail := (c.rTail + 1) % RCV_SZ } : Conn).Buffers S (t + 1) m := by
  have hle := h.le
  have hm := h.room
  have hlen := h.len
  have hlt : t < m := by
    rcases Nat.lt_or_eq_of_le hle with hlt | heq
    · exact hlt
    · exact absurd (by rw [h.tail, h.head, heq]) hne
  refine ⟨?_, ?_, h.head, by omega, by omega, h.len, h.holds.mono (Nat.le_succ t)⟩
  · have hcell := h.holds t (by rw [List.length_take]; omega) (Nat.le_refl t)
    rw [h.tail, hcell, List.getElem_take]
    exact List.getElem?_eq_getElem _
  · show (c.rTail + 1) % RCV_SZ = (t + 1) % RCV_SZ
    rw [h.tail, Nat.mod_add_mod]

/-! ## The frames of a peer -/

/-- A packet as the code indexes it. -/
def frameBytes (pkt : List UInt8) : Nat → UInt8 := fun k => pkt.getD k 0

theorem overlay_frameBytes (p : Nat → UInt8) {pkt : List UInt8} (hsz : pkt.length ≤ WORK_SZ)
    {k : Nat} (hk : k < pkt.length) : overlay p 0 (pkt.take WORK_SZ) k = frameBytes pkt k := by
  rw [List.take_of_length_le hsz]
  simp [overlay, frameBytes, List.getElem?_eq_getElem hk]

theorem rd16_congr {f g : Nat → UInt8} {o : Nat} (h : ∀ k < 2, g (o + k) = f (o + k)) :
    rd16 g o = rd16 f o := by
  rw [rd16, rd16, h 1 (by omega)]
  exact congrArg (fun b : UInt8 => b.toNat * 256 + (f (o + 1)).toNat) (h 0 (by omega))

theorem rd32_congr {f g : Nat → UInt8} {o : Nat} (h : ∀ k < 4, g (o + k) = f (o + k)) :
    rd32 g o = rd32 f o := by
  have h0 : g o = f o := h 0 (by omega)
  rw [rd32, rd32, h0, h 1 (by omega), h 2 (by omega), h 3 (by omega)]

/-- Two buffers that agree on the fields `tcp_in` declares have one header. -/
theorem tcpHdr_congr {f g : Nat → UInt8} (h14 : g 14 = f 14) (hlen : ∀ k < 2, g (16 + k) = f (16 + k))
    (hmac : ∀ k < 6, g (6 + k) = f (6 + k)) (hip : ∀ k < 4, g (26 + k) = f (26 + k))
    (htcp : ∀ k < 14, g ((tcpHdr f).off + k) = f ((tcpHdr f).off + k)) : tcpHdr g = tcpHdr f := by
  have htcp' : ∀ k < 14, g (14 + (f 14 &&& 0x0F).toNat * 4 + k) =
      f (14 + (f 14 &&& 0x0F).toNat * 4 + k) := htcp
  generalize ht : 14 + (f 14 &&& 0x0F).toNat * 4 = t at htcp'
  have hword : ∀ o, o + 1 < 14 → rd16 g (t + o) = rd16 f (t + o) := fun o ho =>
    rd16_congr fun k hk => by rw [Nat.add_assoc]; exact htcp' _ (by omega)
  have hlong : ∀ o, o + 3 < 14 → rd32 g (t + o) = rd32 f (t + o) := fun o ho =>
    rd32_congr fun k hk => by rw [Nat.add_assoc]; exact htcp' _ (by omega)
  have hsport : rd16 g t = rd16 f t := hword 0 (by omega)
  simp only [tcpHdr, h14, ht, slice_congr hmac, slice_congr hip, rd16_congr hlen, hsport,
    hword 2 (by omega), hlong 4 (by omega), hlong 8 (by omega), htcp' 12 (by omega),
    htcp' 13 (by omega)]

/-- A TCP frame whose sender is `ip`. -/
structure TcpFrom (ip pkt : List UInt8) : Prop where
  ethertype : (pkt.drop 12).take 2 = [0x08, 0x00]
  proto : pkt[23]? = some 6
  srcIp : (pkt.drop 26).take 4 = ip

/-- The lengths in the headers of a TCP frame fit together, and what they announce is
in the frame. -/
structure Intact (pkt : List UInt8) : Prop where
  size : pkt.length ≤ WORK_SZ
  ihl : 14 + 20 ≤ (tcpHdr (frameBytes pkt)).off
  toff : 20 ≤ (tcpHdr (frameBytes pkt)).toff
  total : (tcpHdr (frameBytes pkt)).off + (tcpHdr (frameBytes pkt)).toff ≤
    14 + rd16 (frameBytes pkt) 16
  inside : 14 + rd16 (frameBytes pkt) 16 ≤ pkt.length

/-- The data of the segment in `f` is what the stream `S` has at the segment's sequence
number.  The stream begins behind the SYN, whose number is `irs`. -/
def Carries (S : List UInt8) (irs : BitVec 32) (f : Nat → UInt8) : Prop :=
  ∀ k < (tcpHdr f).dlen,
    S[((tcpHdr f).seq - (irs + 1)).toNat + k]? = some (f ((tcpHdr f).off + (tcpHdr f).toff + k))

/-- What a peer at `ip` and `port` with the stream `S` may send. -/
structure PeerFrame (S : List UInt8) (irs : BitVec 32) (port : Nat) (pkt : List UInt8) : Prop where
  intact : Intact pkt
  carries : (tcpHdr (frameBytes pkt)).sport = port →
    hasFlag (tcpHdr (frameBytes pkt)).flags 0x02 = false → Carries S irs (frameBytes pkt)

theorem Intact.tcpHdr_overlay {pkt : List UInt8} (h : Intact pkt) (p : Nat → UInt8) :
    tcpHdr (overlay p 0 (pkt.take WORK_SZ)) = tcpHdr (frameBytes pkt) := by
  have hihl := h.ihl
  have htoff := h.toff
  have htotal := h.total
  have hin := h.inside
  have hbyte : ∀ o m, o + m ≤ pkt.length → ∀ k < m,
      overlay p 0 (pkt.take WORK_SZ) (o + k) = frameBytes pkt (o + k) :=
    fun o m hom k hk => overlay_frameBytes p h.size (by omega)
  exact tcpHdr_congr (hbyte 14 1 (by omega) 0 (by omega)) (hbyte 16 2 (by omega))
    (hbyte 6 6 (by omega)) (hbyte 26 4 (by omega)) (hbyte _ 14 (by omega))

/-- The segment that `tcp_in` finds in the work buffer is the one in the frame. -/
theorem Carries.overlay {S : List UInt8} {irs : BitVec 32} {pkt : List UInt8} (h : Intact pkt)
    (hc : Carries S irs (frameBytes pkt)) (p : Nat → UInt8) :
    Carries S irs (overlay p 0 (pkt.take WORK_SZ)) := by
  intro k hk
  rw [h.tcpHdr_overlay p] at hk ⊢
  rw [hc k hk, overlay_frameBytes p h.size]
  have htotal := h.total
  have hin := h.inside
  have hihl := h.ihl
  have hdlen : (tcpHdr (frameBytes pkt)).dlen =
      14 + rd16 (frameBytes pkt) 16 - (tcpHdr (frameBytes pkt)).off -
        (tcpHdr (frameBytes pkt)).toff := by
    have hw := rd16_lt (frameBytes pkt) 16
    simp only [TcpHdr.dlen, tcpHdr] at htotal ⊢
    omega
  omega

/-- The packet of a call whose frame goes to `tcp_in`. -/
theorem NetOp.frame_tcpFrom {op : NetOp n} {net : Net n} {f : Nat → UInt8} (hf : op.frame net f) :
    ∃ now stage, op = .poll now (some stage) ∧ f = overlay net.work 0 (stage.take WORK_SZ) ∧
      TcpFrom (tcpHdr f).srcIp stage := by
  obtain ⟨now, stage, rfl, rfl, htcp⟩ := hf
  simp only [tcpFrame, Bool.and_eq_true, decide_eq_true_eq] at htcp
  obtain ⟨⟨⟨⟨hlen, het⟩, -⟩, -⟩, hproto⟩ := htcp
  have hbyte : ∀ k < 34, stage[k]? = some (overlay net.work 0 (stage.take WORK_SZ) k) := by
    intro k hk
    have hlt : k < (stage.take WORK_SZ).length := by omega
    have hlt' : k < stage.length := by
      rw [List.length_take] at hlt
      omega
    rw [List.length_take] at hlt
    simp [overlay, show k < WORK_SZ by omega, List.getElem?_eq_getElem hlt']
  have hrun : ∀ o m, o + m ≤ 34 →
      (stage.drop o).take m = slice (overlay net.work 0 (stage.take WORK_SZ)) o m := by
    intro o m hom
    apply List.ext_getElem?
    intro k
    rw [List.getElem?_take, List.getElem?_drop]
    by_cases hk : k < m
    · rw [if_pos hk, hbyte (o + k) (by omega)]
      simp [slice, hk]
    · simp [slice, hk]
  refine ⟨now, stage, rfl, rfl, ⟨?_, ?_, ?_⟩⟩
  · rw [hrun 12 2 (by omega), ← be16_rd16, het]
    rfl
  · rw [hbyte 23 (by omega), hproto]
  · rw [hrun 26 4 (by omega)]
    rfl

/-- The frames of one call, for the slot of the peer. -/
theorem NetOp.frame_carries {S : List UInt8} {irs : BitVec 32} {ip : List UInt8} {port : Nat}
    {op : NetOp n} {net : Net n}
    (hpeer : ∀ now pkt, op = .poll now (some pkt) → TcpFrom ip pkt → PeerFrame S irs port pkt)
    {f : Nat → UInt8} (hf : op.frame net f) (hip : ip = (tcpHdr f).srcIp)
    (hport : port = (tcpHdr f).sport) (hsyn : hasFlag (tcpHdr f).flags 0x02 = false) :
    Carries S irs f := by
  obtain ⟨now, stage, rfl, rfl, hfrom⟩ := NetOp.frame_tcpFrom hf
  rw [← hip] at hfrom
  obtain ⟨hin, hcar⟩ := hpeer now stage rfl hfrom
  rw [hin.tcpHdr_overlay] at hport hsyn
  exact (hcar hport.symm hsyn).overlay hin _

/-! ## Runs of a connection -/

/-- Slot state `c` carries connection `g`. -/
def Conn.Live (g : Nat) (c : Conn) : Prop := c.gen = g ∧ c.tstate ≠ .listen

/-- The invariant of slot state `c` for connection `g` with the peer at `ip` and `port`,
whose SYN was `irs` and whose stream is `S`, when `got` was read so far. -/
structure RcvInv (S : List UInt8) (irs : BitVec 32) (ip : List UInt8) (port g : Nat)
    (got : List UInt8) (c : Conn) : Prop where
  read : got <+: S
  gen : g ≤ c.gen
  live : c.Live g → c.peerIp = ip ∧ c.peerPort = port ∧
    ∃ m, c.Buffers S got.length m ∧ c.rcvNxt = irs + 1 + BitVec.ofNat 32 m
  free : c.gen = g → c.tstate = .listen → c.rTail = c.rHead

section

variable {S : List UInt8} {irs : BitVec 32} {ip : List UInt8} {port g : Nat} {got : List UInt8}

theorem Conn.stored_sameButRcv (c : Conn) (f : Nat → UInt8) : c.SameButRcv (c.stored f) :=
  (rcvStore_sameButRcv f (tcpHdr f).dlen ((tcpHdr f).off + (tcpHdr f).toff) c).advance _

theorem Conn.Buffers.advance {i m : Nat} (h : c.Buffers S i m) (nxt : BitVec 32) :
    Conn.Buffers { c with rcvNxt := nxt } S i m :=
  ⟨h.tail, h.head, h.le, h.room, h.len, h.holds⟩

/-- An in-order segment of the peer, stored as far as there is room. -/
theorem Conn.Buffers.stored {f : Nat → UInt8} {m : Nat} (hS : S.length < 2 ^ 32)
    (h : c.Buffers S got.length m) (hnxt : c.rcvNxt = irs + 1 + BitVec.ofNat 32 m)
    (hseq : (tcpHdr f).seq = c.rcvNxt) (hcar : Carries S irs f) :
    ∃ m', (c.stored f).Buffers S got.length m' ∧
      (c.stored f).rcvNxt = irs + 1 + BitVec.ofNat 32 m' := by
  have hlen := h.len
  have hpos : ((tcpHdr f).seq - (irs + 1)).toNat = m := by
    rw [hseq, hnxt, BitVec.add_comm, BitVec.add_sub_cancel, BitVec.toNat_ofNat,
      Nat.mod_eq_of_lt (by omega)]
  have hst := rcvStore_buffers f (tcpHdr f).dlen ((tcpHdr f).off + (tcpHdr f).toff) c m h
    fun j hj => by rw [← hpos]; exact hcar j hj
  refine ⟨_, hst.advance _, ?_⟩
  show c.rcvNxt + BitVec.ofNat 32 _ = _
  rw [hnxt, BitVec.ofNat_add, BitVec.add_assoc]

/-- One act keeps the invariant, and starts no connection of the same number. -/
theorem RcvInv.act {c₀ : Conn} (hS : S.length < 2 ^ 32)
    (hV : c₀.Live g → ∀ f, V f → ip = (tcpHdr f).srcIp → port = (tcpHdr f).sport →
      hasFlag (tcpHdr f).flags 0x02 = false → Carries S irs f)
    (h : RcvInv S irs ip port g got c ∧ (c.Live g → c₀.Live g)) (ha : Conn.RcvAct V c c') :
    RcvInv S irs ip port g got c' ∧ (c'.Live g → c₀.Live g) := by
  obtain ⟨hinv, hlive₀⟩ := h
  have hgen := hinv.gen
  cases ha with
  | same hs =>
      have hback : c'.Live g → c.Live g :=
        fun hl => ⟨hs.gen.symm.trans hl.1, fun hfree => hl.2 (hs.free.mpr hfree)⟩
      refine ⟨⟨hinv.read, by rw [hs.gen]; exact hgen, fun hl => ?_, fun hg hfree => ?_⟩,
        fun hl => hlive₀ (hback hl)⟩
      · obtain ⟨hip, hport, m, hbuf, hnxt⟩ := hinv.live (hback hl)
        refine ⟨hs.ip.trans hip, hs.port.trans hport, m, ⟨?_, ?_, hbuf.le, hbuf.room, hbuf.len, ?_⟩,
          hs.nxt.trans hnxt⟩
        · rw [hs.tail, hbuf.tail]
        · rw [hs.head, hbuf.head]
        · rw [hs.buf]
          exact hbuf.holds
      · rw [hs.tail, hs.head]
        exact hinv.free (hs.gen.symm.trans hg) (hs.free.mp hfree)
  | ended ho =>
      -- a slot that is live again carries a later connection
      have hdead : ¬ c'.Live g := by
        rintro ⟨hg, hst⟩
        rcases ho.gen with hlt | ⟨_, hfree⟩
        · omega
        · exact hst hfree
      refine ⟨⟨hinv.read, ?_, fun hl => absurd hl hdead, fun _ _ => ?_⟩, fun hl => absurd hl hdead⟩
      · rcases ho.gen with hlt | ⟨heq, _⟩ <;> omega
      · rw [ho.tail, ho.head]
  | store f hv hst hip hport hsyn hseq =>
      have hsame := (c.stored_sameButRcv f).eq
      have hgen' : (c.stored f).gen = c.gen := by rw [hsame]
      have hst' : (c.stored f).tstate = .estab := by rw [hsame]; exact hst
      have hback : (c.stored f).Live g → c.Live g :=
        fun hl => ⟨hgen'.symm.trans hl.1, by rw [hst]; decide⟩
      refine ⟨⟨hinv.read, by rw [hgen']; exact hgen, fun hl => ?_, fun _ hfree => ?_⟩,
        fun hl => hlive₀ (hback hl)⟩
      · obtain ⟨hip', hport', m, hbuf, hnxt⟩ := hinv.live (hback hl)
        have hcar : Carries S irs f := hV (hlive₀ (hback hl)) f hv (hip'.symm.trans hip)
          (hport'.symm.trans hport) hsyn
        refine ⟨by rw [hsame]; exact hip', by rw [hsame]; exact hport', ?_⟩
        exact hbuf.stored hS hnxt hseq hcar
      · rw [hst'] at hfree
        cases hfree

theorem netRxGetc_empty {net : Net n} {i : Fin n}
    (h : (net.conns i).rTail = (net.conns i).rHead) : netRxGetc net i = (none, net) := by
  simp [netRxGetc, h]

theorem netRxGetc_some {net : Net n} {i : Fin n} (h : (net.conns i).rTail ≠ (net.conns i).rHead) :
    netRxGetc net i = (some ((net.conns i).rbuf (net.conns i).rTail),
      net.set i { net.conns i with rTail := ((net.conns i).rTail + 1) % RCV_SZ }) := by
  simp [netRxGetc, h]

/-- A byte that `net_rx_getc` returns is the next one of the stream. -/
theorem RcvInv.getc {net : Net n} {i : Fin n} (h : RcvInv S irs ip port g got (net.conns i)) :
    RcvInv S irs ip port g
      (got ++ if (net.conns i).gen = g then (netRxGetc net i).1.toList else [])
      ((netRxGetc net i).2.conns i) := by
  by_cases hne : (net.conns i).rTail = (net.conns i).rHead
  · rw [netRxGetc_empty hne]
    simpa using h
  · rw [netRxGetc_some hne]
    simp only [Net.set_conns_self]
    by_cases hg : (net.conns i).gen = g
    · have hst : (net.conns i).tstate ≠ .listen := fun hfree => hne (h.free hg hfree)
      obtain ⟨hip, hport, m, hbuf, hnxt⟩ := h.live ⟨hg, hst⟩
      obtain ⟨hbyte, hpop⟩ := hbuf.pop hne
      rw [if_pos hg, Option.toList_some]
      refine ⟨?_, h.gen, fun _ => ⟨hip, hport, m, ?_, hnxt⟩, fun _ hfree => absurd hfree hst⟩
      · obtain ⟨rest, rfl⟩ := h.read
        rw [List.getElem?_append_right (Nat.le_refl _), Nat.sub_self] at hbyte
        cases rest with
        | nil => cases hbyte
        | cons b rest =>
            cases hbyte
            exact ⟨rest, by simp⟩
      · rw [List.length_append, List.length_singleton]
        exact hpop
    · rw [if_neg hg, List.append_nil]
      exact ⟨h.read, h.gen, fun hl => absurd hl.1 hg, fun hg' => absurd hg' hg⟩

end

/-- What a call of the interface returns of connection `g` of slot `i`. -/
def NetOp.reads (i : Fin n) (g : Nat) (net : Net n) : NetOp n → List UInt8
  | .rxGetc j => if j = i ∧ (net.conns i).gen = g then (netRxGetc net i).1.toList else []
  | _ => []

/-- The bytes that `net_rx_getc(i)` returns in a run while slot `i` carries connection
`g`. -/
def rxBytes (i : Fin n) (g : Nat) : List (NetOp n) → Net n → List UInt8
  | [], _ => []
  | op :: ops, net => op.reads i g net ++ rxBytes i g ops (op.run net)

/-- As long as slot `i` carries connection `g`, every frame of the run that comes from
the address of its peer is one of the peer's. -/
def FromPeer (S : List UInt8) (irs : BitVec 32) (ip : List UInt8) (port : Nat) (i : Fin n)
    (g : Nat) (ops : List (NetOp n)) (net : Net n) : Prop :=
  ∀ pre now pkt post, ops = pre ++ .poll now (some pkt) :: post →
    ((netRun pre net).conns i).Live g → TcpFrom ip pkt → PeerFrame S irs port pkt

section

variable {S : List UInt8} {irs : BitVec 32} {ip : List UInt8} {port g : Nat} {i : Fin n}

theorem RcvInv.op {net : Net n} {got : List UInt8} (hS : S.length < 2 ^ 32) (op : NetOp n)
    (hpeer : (net.conns i).Live g → ∀ now pkt, op = .poll now (some pkt) → TcpFrom ip pkt →
      PeerFrame S irs port pkt)
    (h : RcvInv S irs ip port g got (net.conns i)) :
    RcvInv S irs ip port g (got ++ op.reads i g net) ((op.run net).conns i) := by
  by_cases hop : op = .rxGetc i
  · subst hop
    simpa [NetOp.reads, NetOp.run] using h.getc
  · have hreads : op.reads i g net = [] := by
      cases op with
      | rxGetc j => simpa [NetOp.reads] using fun hj => absurd (by rw [hj]) hop
      | _ => rfl
    rw [hreads, List.append_nil]
    have hacts := op.rcvActs net i hop
    have hV : (net.conns i).Live g → ∀ f, op.frame net f → ip = (tcpHdr f).srcIp →
        port = (tcpHdr f).sport → hasFlag (tcpHdr f).flags 0x02 = false → Carries S irs f :=
      fun hl f hf => NetOp.frame_carries (hpeer hl) hf
    have hall := hacts.preserves
      (P := fun c => RcvInv S irs ip port g got c ∧ (c.Live g → (net.conns i).Live g))
      (fun c c' hc ha => RcvInv.act hS hV hc ha) ⟨h, id⟩
    exact hall.1

theorem RcvInv.run (hS : S.length < 2 ^ 32) :
    ∀ (ops : List (NetOp n)) (net : Net n) (got : List UInt8),
      FromPeer S irs ip port i g ops net → RcvInv S irs ip port g got (net.conns i) →
      RcvInv S irs ip port g (got ++ rxBytes i g ops net) ((netRun ops net).conns i)
  | [], net, got, _, h => by simpa [rxBytes, netRun] using h
  | op :: ops, net, got, hpeer, h => by
      have hop := h.op hS op fun hl now pkt heq => hpeer [] now pkt ops (by rw [heq]; rfl) hl
      have ih := RcvInv.run hS ops (op.run net) _
        (fun pre now pkt post heq => hpeer (op :: pre) now pkt post (by rw [heq]; rfl)) hop
      rw [List.append_assoc] at ih
      exact ih

/-- The SYN that takes a slot. -/
theorem tcpIn_takes {now : BitVec 32} {net : Net n} {f : Nat → UInt8}
    (h : tcpInTakes net f = some i) : tcpIn now net f = tcpInSynAccept now net (tcpHdr f) i := by
  unfold tcpInTakes at h
  unfold tcpIn
  dsimp only at h ⊢
  split at h
  · cases h
  next hport =>
    rw [if_neg hport]
    split at h
    · cases h
    next hlen =>
      rw [if_neg hlen]
      split at h
      · cases h
      next hrst =>
        rw [if_neg hrst]
        split at h
        next hsyn =>
          rw [if_pos hsyn]
          split at h
          · cases h
          next hfind => simp only [tcpInSyn, hfind, h]
        next => cases h

/-- The header of a received packet, as the code sees it. -/
def packetHdr (net : Net n) (pkt : List UInt8) : TcpHdr :=
  tcpHdr (overlay net.work 0 (pkt.take WORK_SZ))

/-- The poll that receives the SYN. -/
theorem netReceive_syn {net : Net n} {now : BitVec 32} {syn : List UInt8}
    (htake : netPollTakes now (some syn) net = some i) :
    netReceive now (netTimers now net) (some syn) =
      tcpInSynAccept now
        { netTimers now net with work := overlay net.work 0 (syn.take WORK_SZ) }
        (packetHdr net syn) i := by
  obtain ⟨hwork, _, _⟩ := netTimers_frame now net
  unfold netPollTakes frameTakes at htake
  dsimp only at htake
  rw [hwork] at htake
  split at htake
  next htcp =>
    simp only [netReceive, hwork]
    rw [handleFrame_tcp now _ _ _ htcp, tcpIn_takes htake]
    rfl
  next => cases htake

/-- A connection that was just opened stands at the start of the stream. -/
theorem tcpInSynAccept_rcvInv (now : BitVec 32) (net : Net n) (h : TcpHdr) (i : Fin n)
    (S : List UInt8) :
    RcvInv S h.seq h.srcIp h.sport ((tcpInSynAccept now net h i).conns i).gen []
      ((tcpInSynAccept now net h i).conns i) := by
  simp only [tcpInSynAccept, Net.set_conns_self]
  refine ⟨List.nil_prefix, Nat.le_refl _, fun _ => ?_, fun _ hfree => by cases hfree⟩
  refine ⟨rfl, rfl, 0, Conn.Buffers.start S rfl rfl, ?_⟩
  rw [BitVec.ofNat_eq_ofNat, BitVec.add_zero]
  rfl

/-- After the poll that receives the SYN, the connection stands at the start of the
stream. -/
theorem netPoll_syn_rcvInv {net : Net n} {now : BitVec 32} {syn : List UInt8}
    (htake : netPollTakes now (some syn) net = some i) (S : List UInt8) :
    RcvInv S (packetHdr net syn).seq (packetHdr net syn).srcIp (packetHdr net syn).sport
      ((netPoll now (some syn) net).conns i).gen [] ((netPoll now (some syn) net).conns i) := by
  have hflush := (netTxFlush_conns now (netReceive now (netTimers now net) (some syn)) i).same
  rw [netReceive_syn htake] at hflush
  have hsyn := tcpInSynAccept_rcvInv now
    { netTimers now net with work := overlay net.work 0 (syn.take WORK_SZ) } (packetHdr net syn) i S
  rw [netPoll, netReceive_syn htake, hflush]
  refine ⟨hsyn.read, hsyn.gen, fun hl => ?_, hsyn.free⟩
  obtain ⟨hip, hport, m, hbuf, hnxt⟩ := hsyn.live hl
  exact ⟨hip, hport, m, ⟨hbuf.tail, hbuf.head, hbuf.le, hbuf.room, hbuf.len, hbuf.holds⟩, hnxt⟩

end

/-- What is wanted of the receiving side when `got` was read of connection `g` of slot
`i`: it is a prefix of the stream, and as long as the connection lives `rcv_nxt` counts
what was read and what waits in the ring. -/
structure ReceivesStream (S : List UInt8) (irs : BitVec 32) (i : Fin n) (g : Nat)
    (got : List UInt8) (net : Net n) : Prop where
  read : got <+: S
  next : (net.conns i).Live g →
    ((net.conns i).rcvNxt - (irs + 1)).toNat = got.length + (net.conns i).rcvUsed

/-- A SYN takes a slot, and any calls follow, with frames of any kind from other hosts
and with the segments of the peer in any order and any cut: what `net_rx_getc` returns
is the peer's stream. -/
theorem tcp_receive_stream {net : Net n} {now : BitVec 32} {syn : List UInt8} {i : Fin n} {g : Nat}
    (htake : netPollTakes now (some syn) net = some i)
    (hg : g = ((netPoll now (some syn) net).conns i).gen)
    {S : List UInt8} (hS : S.length < 2 ^ 32) {ops : List (NetOp n)}
    (hpeer : FromPeer S (packetHdr net syn).seq (packetHdr net syn).srcIp
      (packetHdr net syn).sport i g ops (netPoll now (some syn) net)) :
    ReceivesStream S (packetHdr net syn).seq i g
      (rxBytes i g ops (netPoll now (some syn) net))
      (netRun ops (netPoll now (some syn) net)) := by
  subst hg
  have hrun := RcvInv.run hS ops _ [] hpeer (netPoll_syn_rcvInv htake S)
  rw [List.nil_append] at hrun
  refine ⟨hrun.read, fun hl => ?_⟩
  obtain ⟨_, _, m, hbuf, hnxt⟩ := hrun.live hl
  have hlen := hbuf.len
  have hle := hbuf.le
  rw [hbuf.rcvUsed_eq, hnxt, BitVec.add_comm, BitVec.add_sub_cancel, BitVec.toNat_ofNat,
    Nat.mod_eq_of_lt (by omega)]
  omega

/-- A segment of the client in `sampleSyn`, with the bytes of its stream from position
`o` on. -/
def sampleData (o : Nat) (data : List UInt8) : List UInt8 :=
  peerFrame [10, 0, 2, 2] [10, 0, 2, 15] 1000 22 (6 + o) 0x13701 0x10 data

/-- A client's SYN. -/
def sampleSyn : List UInt8 := peerFrame [10, 0, 2, 2] [10, 0, 2, 15] 1000 22 5 0 0x02 []

/-- The stack before the SYN. -/
def sampleOpen : Net 2 := netOpen (List.replicate 6 0) [10, 0, 2, 15] 22

/-- A read of the client's slot. -/
def sampleGetc : NetOp 2 := .rxGetc ⟨0, Nat.zero_lt_two⟩

/-- The stream `hi!` with a gap, an overlap and a duplicate. -/
def sampleSegments : List (NetOp 2) :=
  [.poll 1 (some (sampleData 1 [105, 33])), .poll 2 (some (sampleData 0 [104])), sampleGetc,
    .poll 3 (some (sampleData 0 [104, 105, 33])), .poll 4 (some (sampleData 1 [105, 33])),
    sampleGetc, .poll 5 (some (sampleData 2 [33])), sampleGetc, sampleGetc]

theorem tcp_receive_stream_reordered :
    netPollTakes 0 (some sampleSyn) sampleOpen = some 0 ∧
      rxBytes 0 1 sampleSegments (netPoll 0 (some sampleSyn) sampleOpen) = [104, 105, 33] ∧
      ReceivesStream [104, 105, 33] (packetHdr sampleOpen sampleSyn).seq 0 1
        (rxBytes 0 1 sampleSegments (netPoll 0 (some sampleSyn) sampleOpen))
        (netRun sampleSegments (netPoll 0 (some sampleSyn) sampleOpen)) := by
  have htake : netPollTakes 0 (some sampleSyn) sampleOpen = some 0 := by decide +kernel
  refine ⟨htake, by decide +kernel, tcp_receive_stream htake (by decide +kernel) (by decide) ?_⟩
  have hseq : (packetHdr sampleOpen sampleSyn).seq = 5 := by decide +kernel
  have hsegs : ∀ o data, (o, data) ∈ [(1, [105, 33]), (0, [104]), (0, [104, 105, 33]), (2, [33])] →
      ∀ port, PeerFrame [104, 105, 33] 5 port (sampleData o data) := by
    intro o data hmem port
    simp only [List.mem_cons, Prod.mk.injEq, List.not_mem_nil, or_false] at hmem
    rcases hmem with ⟨rfl, rfl⟩ | ⟨rfl, rfl⟩ | ⟨rfl, rfl⟩ | ⟨rfl, rfl⟩ <;>
      refine ⟨⟨by decide +kernel, by decide +kernel, by decide +kernel, by decide +kernel,
        by decide +kernel⟩, fun _ _ => ?_⟩ <;>
      unfold Carries <;> decide +kernel
  rw [hseq]
  intro pre now pkt post heq _ _
  have hmem : NetOp.poll now (some pkt) ∈ sampleSegments := by
    rw [heq]
    simp
  simp only [sampleSegments, sampleGetc, List.mem_cons, NetOp.poll.injEq, Option.some.injEq, reduceCtorEq,
    List.not_mem_nil, or_false, false_or] at hmem
  rcases hmem with ⟨_, rfl⟩ | ⟨_, rfl⟩ | ⟨_, rfl⟩ | ⟨_, rfl⟩ | ⟨_, rfl⟩ <;>
    exact hsegs _ _ (by decide) _

end Dossh
