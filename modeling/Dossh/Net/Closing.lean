import Dossh.Net.Window

/-!
# The end of a connection

`tcp_in` acknowledges the data of a segment as it stores it in the receive ring.  Its FIN block
comes right after, acknowledges one number more and gives the slot back, with whatever the ring
holds.  It looks neither at the ring nor at the sequence number of the FIN.

`AckInv` relates all acknowledgements of a connection to what was stored.  A caller that empties
the ring after every poll finds every slot `Idle` before the next call, and there an end of the
connection loses nothing.
-/

namespace Dossh

variable {n : Nat} {S : List UInt8} {irs : BitVec 32} {ip : List UInt8} {port g : Nat}
  {got : List UInt8} {i : Fin n} {net net' : Net n} {c c' : Conn} {L : Prop}

/-- Where in the stream of the peer a sequence number stands. -/
def streamPos (irs a : BitVec 32) : Nat := (a - (irs + 1)).toNat

theorem streamPos_add {m : Nat} (h : m < 2 ^ 32) :
    streamPos irs (irs + 1 + BitVec.ofNat 32 m) = m := by
  rw [streamPos, add_sub_cancel_left, BitVec.toNat_ofNat, Nat.mod_eq_of_lt h]

/-! ## The invariant -/

/-- What was stored of the stream of connection `g`, when `got` was read. -/
def Conn.kept (S : List UInt8) (g : Nat) (got : List UInt8) (c : Conn) : List UInt8 :=
  if c.gen = g then S.take (got.length + c.rcvUsed) else got

/-- Every number that connection `g` of slot `i` acknowledged is of the bytes that were stored. -/
structure AckInv (S : List UInt8) (irs : BitVec 32) (ip : List UInt8) (port g : Nat)
    (got : List UInt8) (i : Fin n) (net : Net n) : Prop where
  rcv : RcvInv S irs ip port g got (net.conns i)
  acked : ∀ s ∈ segsOf i g net.log,
    S.take (streamPos irs s.ack) <+: (net.conns i).kept S g got
  next : (net.conns i).gen = g →
    S.take (streamPos irs (net.conns i).rcvNxt) <+: (net.conns i).kept S g got

/-- The ring is also empty, and the connection lived only if `L` holds. -/
structure Idle (S : List UInt8) (irs : BitVec 32) (ip : List UInt8) (port g : Nat)
    (got : List UInt8) (L : Prop) (i : Fin n) (net : Net n) : Prop
    extends AckInv S irs ip port g got i net where
  empty : (net.conns i).gen = g → (net.conns i).rTail = (net.conns i).rHead
  since : (net.conns i).Live g → L

theorem Conn.rcvUsed_empty (h : c.rTail = c.rHead) : c.rcvUsed = 0 := by
  have hd := Ring.dist_mod (m := RCV_SZ) (Nat.le_refl c.rHead) (by rw [Nat.sub_self]; decide)
  rw [Ring.dist_mod_mod] at hd
  rw [Conn.rcvUsed, h, hd, Nat.sub_self]

/-- With an empty ring only what was read is stored. -/
theorem Conn.kept_empty (hread : got <+: S) (h : c.gen = g → c.rTail = c.rHead) :
    c.kept S g got = got := by
  unfold Conn.kept
  split
  next hg => rw [Conn.rcvUsed_empty (h hg), Nat.add_zero, ← List.prefix_iff_eq_take.mp hread]
  next => rfl

theorem Conn.SameRcv.kept_eq (h : c.SameRcv c') : c'.kept S g got = c.kept S g got := by
  simp only [Conn.kept, Conn.rcvUsed, h.gen, h.head, h.tail]

/-- The receiving side of a later connection. -/
theorem RcvInv.later (hread : got <+: S) (h : g < c.gen) : RcvInv S irs ip port g got c :=
  ⟨hread, Nat.le_of_lt h, fun hl => absurd hl.1 (Nat.ne_of_gt h),
    fun hg => absurd hg (Nat.ne_of_gt h)⟩

theorem RcvInv.same (hS : S.length < 2 ^ 32) (h : RcvInv S irs ip port g got c)
    (hs : c.SameRcv c') : RcvInv S irs ip port g got c' :=
  (RcvInv.act (V := fun _ => False) hS (fun _ _ hf => hf.elim) ⟨h, @id (c.Live g)⟩ (.same hs)).1

theorem RcvInv.ended (hS : S.length < 2 ^ 32) (h : RcvInv S irs ip port g got c)
    (ho : c.Over c') : RcvInv S irs ip port g got c' :=
  (RcvInv.act (V := fun _ => False) hS (fun _ _ hf => hf.elim) ⟨h, @id (c.Live g)⟩ (.ended ho)).1

/-- In a live connection `rcv_nxt` stands behind what was stored. -/
theorem RcvInv.take_next (hS : S.length < 2 ^ 32) (h : RcvInv S irs ip port g got c)
    (hl : c.Live g) : S.take (streamPos irs c.rcvNxt) = c.kept S g got := by
  obtain ⟨-, -, m, hbuf, hnxt⟩ := h.live hl
  have hlen := hbuf.len
  have hle := hbuf.le
  rw [Conn.kept, if_pos hl.1, hnxt, streamPos_add (by omega), hbuf.rcvUsed_eq]
  congr 1
  omega

namespace AckInv

/-- The invariant is about slot `i` and its segments. -/
theorem congr (h : AckInv S irs ip port g got i net) (hconn : net'.conns i = net.conns i)
    (hsegs : segsOf i g net'.log = segsOf i g net.log) : AckInv S irs ip port g got i net' := by
  refine ⟨?_, ?_, ?_⟩
  · rw [hconn]
    exact h.rcv
  · rw [hsegs, hconn]
    exact h.acked
  · rw [hconn]
    exact h.next

theorem send (h : AckInv S irs ip port g got i net) (j : Fin n) (flags : UInt8) (mss : Bool)
    (doff dlen : Nat) : AckInv S irs ip port g got i (tcpSendSeg net j flags mss doff dlen) := by
  refine ⟨h.rcv, ?_, h.next⟩
  intro s hs
  rw [segsOf_send] at hs
  split at hs
  next hji =>
    obtain ⟨rfl, hg⟩ := hji
    rcases List.mem_cons.mp hs with rfl | hs
    · exact h.next hg
    · exact h.acked s hs
  next => exact h.acked s hs

theorem carried (hS : S.length < 2 ^ 32) :
    Carried (AckInv (n := n) S irs ip port g got i) where
  quiet h hq := by
    refine ⟨h.rcv.same hS (hq.slots i), ?_, ?_⟩
    · rw [hq.segs, (hq.slots i).kept_eq]
      exact h.acked
    · rw [(hq.slots i).gen, (hq.slots i).nxt, (hq.slots i).kept_eq]
      exact h.next
  send j flags mss doff dlen h := h.send j flags mss doff dlen

end AckInv

namespace Idle

theorem of_same (h : Idle S irs ip port g got L i net)
    (hack : AckInv S irs ip port g got i net') (hs : (net.conns i).SameRcv (net'.conns i)) :
    Idle S irs ip port g got L i net' := by
  refine ⟨hack, ?_, ?_⟩
  · rw [hs.gen, hs.tail, hs.head]
    exact h.empty
  · intro hl
    exact h.since ⟨hs.gen.symm.trans hl.1, fun hfree => hl.2 (hs.free.mpr hfree)⟩

/-- The slot is given back. -/
theorem reset (hS : S.length < 2 ^ 32) (h : Idle S irs ip port g got L i net) (j : Fin n) :
    Idle S irs ip port g got L i (net.set j (tcpResetListen (net.conns j))) := by
  by_cases hij : i = j
  · subst hij
    have hkept : (tcpResetListen (net.conns i)).kept S g got = (net.conns i).kept S g got := by
      rw [Conn.kept_empty h.rcv.read h.empty, Conn.kept_empty h.rcv.read fun _ => rfl]
    refine ⟨⟨?_, ?_, ?_⟩, ?_, ?_⟩
    · rw [Net.set_conns_self]
      exact h.rcv.ended hS (tcpResetListen_over _)
    · rw [Net.set_conns_self, hkept]
      exact h.acked
    · rw [Net.set_conns_self, hkept]
      exact h.next
    · rw [Net.set_conns_self]
      exact fun _ => rfl
    · rw [Net.set_conns_self]
      exact fun hl => absurd rfl hl.2
  · have hconn : (net.set j (tcpResetListen (net.conns j))).conns i = net.conns i :=
      Net.set_conns_ne _ _ hij
    refine h.of_same (h.congr hconn rfl) ?_
    rw [hconn]
    exact .refl _

/-- A SYN takes a slot. -/
theorem syn (h : Idle S irs ip port g got L i net) (now : BitVec 32)
    (hd : TcpHdr) (j : Fin n) : Idle S irs ip port g got L i (tcpInSynAccept now net hd j) := by
  have hsegs : ¬ (j = i ∧ (net.conns j).gen + 1 = g) →
      segsOf i g (tcpInSynAccept now net hd j).log = segsOf i g net.log := by
    intro hne
    rw [segsOf_syn, if_neg hne]
  by_cases hij : i = j
  · subst hij
    have hlt : g < ((tcpInSynAccept now net hd i).conns i).gen := by
      simp only [tcpInSynAccept, Net.set_conns_self]
      exact Nat.lt_succ_of_le h.rcv.gen
    have hgen : (net.conns i).gen + 1 ≠ g := Nat.ne_of_gt (Nat.lt_succ_of_le h.rcv.gen)
    refine ⟨⟨.later h.rcv.read hlt, ?_, fun hg => absurd hg (Nat.ne_of_gt hlt)⟩,
      fun hg => absurd hg (Nat.ne_of_gt hlt), fun hl => absurd hl.1 (Nat.ne_of_gt hlt)⟩
    rw [hsegs fun hc => hgen hc.2, Conn.kept_empty h.rcv.read fun hg => absurd hg (Nat.ne_of_gt hlt),
      ← Conn.kept_empty h.rcv.read h.empty]
    exact h.acked
  · have hconn := tcpInSynAccept_other now net hd hij
    refine h.of_same (h.congr hconn (hsegs fun hc => hij hc.1.symm)) ?_
    rw [hconn]
    exact .refl _

theorem survives (hS : S.length < 2 ^ 32) :
    Survives (Idle (n := n) S irs ip port g got L i) where
  quiet h hq := h.of_same ((AckInv.carried hS).quiet h.toAckInv hq) (hq.slots i)
  send j flags mss doff dlen h :=
    h.of_same (h.toAckInv.send j flags mss doff dlen) (.refl _)
  reset j h := h.reset hS j
  syn now hd j h := h.syn now hd j

end Idle

/-! ## The data block and the FIN block -/

section

variable {p : AtData n}

/-- The data block does nothing, or stores and sends an ACK. -/
theorem AtData.stored_cases (p : AtData n) :
    p.hdr.dlen = 0 ∧ p.stored = p.net ∨
      p.hdr.dlen ≠ 0 ∧ ∃ c, p.conn.SameButRcv c ∧ (p.hdr.seq ≠ p.conn.rcvNxt → c = p.conn) ∧
        p.stored = tcpSendSeg (p.net.set p.slot c) p.slot 0x10 false 0 0 :=
  tcpInData_cases p.frame p.net p.hdr p.slot

theorem AtData.stored_gen (p : AtData n) : (p.stored.conns p.slot).gen = p.conn.gen := by
  have hgen := (tcpInData_sameButRcv p.frame p.net p.hdr p.slot).gen
  rw [AtData.stored, AtData.conn, hgen]

theorem tcpInFin_gen (net : Net n) (h : TcpHdr) (i : Fin n) :
    ((tcpInFin net h i).conns i).gen = (net.conns i).gen := by
  unfold tcpInFin
  split
  · rw [Net.set_conns_self]
    simp only [tcpResetListen, tcpSendSeg_conns, Net.set_conns_self]
  · rfl

theorem AtData.done_gen (p : AtData n) : (p.done.conns p.slot).gen = p.conn.gen :=
  (tcpInFin_gen p.stored p.hdr p.slot).trans p.stored_gen

theorem AtData.stored_segs (h : ¬ (p.slot = i ∧ p.conn.gen = g)) :
    segsOf i g p.stored.log = segsOf i g p.net.log := by
  rcases p.stored_cases with ⟨-, heq⟩ | ⟨-, c, hc, -, heq⟩
  · rw [heq]
  · rw [heq, segsOf_send, Net.set_conns_self, hc.gen, if_neg h, Net.set_log]

theorem tcpInFin_segs {net : Net n} (hd : TcpHdr) {j : Fin n}
    (h : ¬ (j = i ∧ (net.conns j).gen = g)) :
    segsOf i g (tcpInFin net hd j).log = segsOf i g net.log := by
  unfold tcpInFin
  split
  · rw [Net.set_log, segsOf_send, Net.set_conns_self, if_neg h, Net.set_log]
  · rfl

/-- The blocks send segments of the connection of the slot only. -/
theorem AtData.done_segs (h : ¬ (p.slot = i ∧ p.conn.gen = g)) :
    segsOf i g p.done.log = segsOf i g p.net.log := by
  rw [AtData.done, tcpInFin_segs p.hdr (by rwa [p.stored_gen]), AtData.stored_segs h]

theorem AtData.done_other (h : i ≠ p.slot) : p.done.conns i = p.net.conns i := by
  have hstored : p.stored.conns i = p.net.conns i := by
    rcases p.stored_cases with ⟨-, heq⟩ | ⟨-, c, -, -, heq⟩
    · rw [heq]
    · rw [heq, tcpSendSeg_conns, Net.set_conns_ne _ _ h]
  unfold AtData.done tcpInFin
  split
  · rw [Net.set_conns_ne _ _ h, tcpSendSeg_conns, Net.set_conns_ne _ _ h, hstored]
  · exact hstored

/-- A segment for another connection. -/
theorem Idle.done_other (h : Idle S irs ip port g got L i p.net)
    (hne : ¬ (p.slot = i ∧ p.conn.gen = g)) : AckInv S irs ip port g got i p.done := by
  have hsegs := AtData.done_segs hne
  by_cases hi : p.slot = i
  · subst hi
    have hne' : p.conn.gen ≠ g := fun hg => hne ⟨rfl, hg⟩
    have hlt : g < (p.done.conns p.slot).gen := by
      rw [p.done_gen]
      exact Nat.lt_of_le_of_ne h.rcv.gen (Ne.symm hne')
    refine ⟨.later h.rcv.read hlt, ?_, fun hg => absurd hg (Nat.ne_of_gt hlt)⟩
    rw [hsegs, Conn.kept_empty h.rcv.read fun hg => absurd hg (Nat.ne_of_gt hlt),
      ← Conn.kept_empty h.rcv.read h.empty]
    exact h.acked
  · exact h.congr (AtData.done_other (Ne.symm hi)) hsegs

/-- The data block, with a segment of the peer. -/
theorem Idle.stored (hS : S.length < 2 ^ 32) (h : Idle S irs ip port g got L p.slot p.net)
    (hg : p.conn.gen = g) (hst : p.conn.tstate = .estab) (hip : p.conn.peerIp = p.hdr.srcIp)
    (hport : p.conn.peerPort = p.hdr.sport) (hsyn : hasFlag p.hdr.flags 0x02 = false)
    (hcar : Carries S irs p.frame) : AckInv S irs ip port g got p.slot p.stored := by
  have hacts : p.conn.RcvActs (· = p.frame) (p.stored.conns p.slot) := by
    rw [AtData.stored, AtData.hdr]
    exact tcpInData_rcvActs (V := (· = p.frame)) rfl p.net p.slot hst hip hport hsyn
  have hrcv : RcvInv S irs ip port g got (p.stored.conns p.slot) := by
    refine (hacts.preserves (P := fun c => RcvInv S irs ip port g got c ∧
      (c.Live g → p.conn.Live g)) (fun c c' hc ha => ?_) ⟨h.rcv, id⟩).1
    refine RcvInv.act hS (fun _ f hf _ _ _ => ?_) hc ha
    rw [hf]
    exact hcar
  have hlive : (p.stored.conns p.slot).Live g := by
    refine ⟨p.stored_gen.trans hg, ?_⟩
    rw [AtData.stored, tcpInData_estab, ← AtData.conn, hst]
    decide
  have hmore : p.conn.kept S g got <+: (p.stored.conns p.slot).kept S g got := by
    rw [AtData.conn, Conn.kept_empty h.rcv.read h.empty, Conn.kept, if_pos hlive.1]
    nth_rewrite 1 [List.prefix_iff_eq_take.mp h.rcv.read]
    exact List.take_prefix_take_left (Nat.le_add_right _ _)
  have hnext : S.take (streamPos irs (p.stored.conns p.slot).rcvNxt) <+:
      (p.stored.conns p.slot).kept S g got := by
    rw [hrcv.take_next hS hlive]
  refine ⟨hrcv, ?_, fun _ => hnext⟩
  intro s hs
  rcases p.stored_cases with ⟨-, heq⟩ | ⟨-, c, hc, -, heq⟩
  · rw [heq] at hs
    exact (h.acked s hs).trans hmore
  · have hold : ∀ s ∈ segsOf p.slot g (p.net.set p.slot c).log,
        S.take (streamPos irs s.ack) <+: (p.stored.conns p.slot).kept S g got :=
      fun s hs => (h.acked s hs).trans hmore
    rw [heq, segsOf_send] at hs
    split at hs
    · rcases List.mem_cons.mp hs with rfl | hs
      · rw [heq] at hnext ⊢
        exact hnext
      · exact hold s hs
    · exact hold s hs

/-- The stream was read to its end, and nothing came with the FIN. -/
structure AtData.AtEnd (p : AtData n) (S got : List UInt8) : Prop where
  read : got = S
  ring : p.stored.conns p.slot = p.conn

/-- A FIN that ends where `rcv_nxt` stands. -/
theorem Idle.atEnd (hS : S.length < 2 ^ 32) (h : Idle S irs ip port g got L p.slot p.net)
    (hl : p.conn.Live g)
    (hend : p.hdr.seq + BitVec.ofNat 32 p.hdr.dlen = irs + 1 + BitVec.ofNat 32 S.length)
    (hin : p.hdr.seq + BitVec.ofNat 32 p.hdr.dlen = p.conn.rcvNxt) : p.AtEnd S got := by
  constructor
  · have hnext := h.rcv.take_next hS hl
    have hpos : streamPos irs p.conn.rcvNxt = S.length := by
      rw [← hin, hend, streamPos_add hS]
    rw [← AtData.conn, hpos, List.take_length, AtData.conn,
      Conn.kept_empty h.rcv.read h.empty] at hnext
    exact hnext.symm
  · rcases p.stored_cases with ⟨-, heq⟩ | ⟨hlen, c, -, hseq, heq⟩
    · rw [heq, AtData.conn]
    · rw [heq, tcpSendSeg_conns, Net.set_conns_self]
      apply hseq
      intro hsame
      have hlt : p.hdr.dlen < 65536 :=
        Nat.lt_of_le_of_lt (Nat.sub_le _ _) (Nat.mod_lt _ (by decide))
      rw [hsame, add_eq_left] at hin
      have hmod := congrArg BitVec.toNat hin
      rw [BitVec.toNat_ofNat, Nat.mod_eq_of_lt (by omega)] at hmod
      exact hlen hmod

/-- The blocks of a segment with a FIN that ends where `rcv_nxt` stands. -/
theorem Idle.fin (hS : S.length < 2 ^ 32) (h : Idle S irs ip port g got L p.slot p.net)
    (hend : p.AtEnd S got) (hfin : hasFlag p.hdr.flags 0x01 = true) :
    AckInv S irs ip port g got p.slot p.done := by
  have hdone : p.done.conns p.slot = tcpResetListen { p.conn with rcvNxt := p.conn.rcvNxt + 1 } := by
    rw [AtData.done, tcpInFin, if_pos hfin, Net.set_conns_self, tcpSendSeg_conns,
      Net.set_conns_self, hend.ring]
  have hkept : (p.done.conns p.slot).kept S g got = S := by
    rw [Conn.kept_empty h.rcv.read, hend.read]
    intro _
    rw [hdone]
    rfl
  refine ⟨?_, ?_, ?_⟩
  · rw [hdone]
    exact h.rcv.ended hS ⟨.inr ⟨rfl, rfl⟩, rfl, rfl⟩
  · rw [hkept]
    exact fun s _ => List.take_prefix _ _
  · rw [hkept]
    exact fun _ => List.take_prefix _ _

end

/-! ## Reading -/

/-- `net_rx_getc` moves a byte from the ring to what was read. -/
theorem AckInv.getc (h : AckInv S irs ip port g got i net) :
    AckInv S irs ip port g
      (got ++ if (net.conns i).gen = g then (netRxGetc net i).1.toList else []) i
      (netRxGetc net i).2 := by
  have hrcv := h.rcv.getc
  by_cases hne : (net.conns i).rTail = (net.conns i).rHead
  · rw [netRxGetc_empty hne] at hrcv ⊢
    simpa using h
  · rw [netRxGetc_some hne] at hrcv ⊢
    have hkept : ({ net.conns i with rTail := ((net.conns i).rTail + 1) % RCV_SZ } : Conn).kept S g
        (got ++ if (net.conns i).gen = g then [(net.conns i).rbuf (net.conns i).rTail] else []) =
          (net.conns i).kept S g got := by
      unfold Conn.kept
      dsimp only
      split
      next hg =>
        have hst : (net.conns i).tstate ≠ .listen := fun hfree => hne (h.rcv.free hg hfree)
        obtain ⟨-, -, m, hbuf, -⟩ := h.rcv.live ⟨hg, hst⟩
        obtain ⟨-, hpop⟩ := hbuf.pop hne
        have hle := hpop.le
        rw [hbuf.rcvUsed_eq, hpop.rcvUsed_eq, List.length_append, List.length_singleton]
        congr 1
        omega
      next => rw [List.append_nil]
    refine ⟨hrcv, ?_, ?_⟩
    · rw [Net.set_conns_self]
      dsimp only [Option.toList_some]
      rw [hkept]
      exact h.acked
    · rw [Net.set_conns_self]
      dsimp only [Option.toList_some]
      rw [hkept]
      exact h.next

/-! ## Runs -/

/-- The caller takes all bytes of slot `i` before it calls anything but `net_rx_getc`. -/
def Drains (i : Fin n) (ops : List (NetOp n)) (net : Net n) : Prop :=
  ∀ pre op post, ops = pre ++ op :: post → (∀ j, op ≠ .rxGetc j) →
    (netRxGetc (netRun pre net) i).1 = none

/-- As long as slot `i` carries connection `g`, a FIN of the peer stands behind its stream. -/
def FinAtEnd (S : List UInt8) (irs : BitVec 32) (ip : List UInt8) (port : Nat) (i : Fin n)
    (g : Nat) (ops : List (NetOp n)) (net : Net n) : Prop :=
  ∀ pre now pkt post, ops = pre ++ .poll now (some pkt) :: post →
    ((netRun pre net).conns i).Live g → TcpFrom ip pkt →
    (tcpHdr (frameBytes pkt)).sport = port →
    hasFlag (tcpHdr (frameBytes pkt)).flags 0x02 = false →
    hasFlag (tcpHdr (frameBytes pkt)).flags 0x01 = true →
    (tcpHdr (frameBytes pkt)).seq + BitVec.ofNat 32 (tcpHdr (frameBytes pkt)).dlen =
      irs + 1 + BitVec.ofNat 32 S.length

/-- A FIN that comes to connection `g` of slot `i` ends, with the data before it, where `rcv_nxt`
already stands. -/
def FinInOrder (i : Fin n) (g : Nat) (ops : List (NetOp n)) (net : Net n) : Prop :=
  ∀ pre now pkt post p, ops = pre ++ .poll now pkt :: post →
    netPollAtData now pkt (netRun pre net) = some p → p.slot = i → p.conn.gen = g →
    hasFlag p.hdr.flags 0x01 = true → p.hdr.seq + BitVec.ofNat 32 p.hdr.dlen = p.conn.rcvNxt

theorem netRxGetc_none (h : (netRxGetc net i).1 = none) :
    (net.conns i).rTail = (net.conns i).rHead := by
  by_contra hne
  rw [netRxGetc_some hne] at h
  cases h

section

variable {now : BitVec 32} {pkt : Option (List UInt8)} {p : AtData n}

/-- A FIN at the data block, when the ring was empty before the poll. -/
theorem Idle.atEnd_of_fin (hS : S.length < 2 ^ 32)
    (hpeer : (net.conns i).Live g → ∀ now' pkt', NetOp.poll now pkt = .poll (n := n) now' (some pkt') →
      TcpFrom ip pkt' → PeerFrame S irs port pkt')
    (hends : FinAtEnd S irs ip port i g [.poll now pkt] net)
    (h : Idle S irs ip port g got ((net.conns i).Live g) i p.net)
    (hp : netPollAtData now pkt net = some p) (hi : p.slot = i) (hg : p.conn.gen = g)
    (hfin : hasFlag p.hdr.flags 0x01 = true)
    (hin : p.hdr.seq + BitVec.ofNat 32 p.hdr.dlen = p.conn.rcvNxt) : p.AtEnd S got := by
  subst hi
  obtain ⟨-, hframe, hst, hip, hport, hsyn⟩ := netPollAtData_some hp
  have hl : p.conn.Live g := ⟨hg, by rw [hst]; decide⟩
  obtain ⟨hip', hport', -⟩ := h.rcv.live hl
  obtain ⟨now', stage, hop, hf, hfrom⟩ := NetOp.frame_tcpFrom hframe
  cases hop
  have hsrc : (tcpHdr p.frame).srcIp = ip := hip.symm.trans hip'
  rw [hsrc] at hfrom
  have hhdr : p.hdr = tcpHdr (frameBytes stage) := by
    rw [AtData.hdr, hf]
    exact (hpeer (h.since hl) now stage rfl hfrom).intact.tcpHdr_overlay net.work
  refine h.atEnd hS hl ?_ hin
  have hseq := hends [] now stage [] rfl (h.since hl) hfrom
  rw [← hhdr] at hseq
  exact hseq (hport.symm.trans hport') hsyn hfin

/-- A poll, when the ring was empty before it. -/
theorem Idle.poll (hS : S.length < 2 ^ 32)
    (hpeer : (net.conns i).Live g → ∀ now' pkt', NetOp.poll now pkt = .poll (n := n) now' (some pkt') →
      TcpFrom ip pkt' → PeerFrame S irs port pkt')
    (hends : FinAtEnd S irs ip port i g [.poll now pkt] net)
    (hfins : FinInOrder i g [.poll now pkt] net)
    (hp : netPollAtData now pkt net = some p)
    (h : Idle S irs ip port g got ((net.conns i).Live g) i p.net) :
    AckInv S irs ip port g got i p.done := by
  by_cases hmine : p.slot = i ∧ p.conn.gen = g
  · obtain ⟨hi, hg⟩ := hmine
    cases hfin : hasFlag p.hdr.flags 0x01 with
    | true =>
        have hin := hfins [] now pkt [] p rfl hp hi hg hfin
        have hend := h.atEnd_of_fin hS hpeer hends hp hi hg hfin hin
        subst hi
        exact h.fin hS hend hfin
    | false =>
        subst hi
        obtain ⟨-, hframe, hst, hip, hport, hsyn⟩ := netPollAtData_some hp
        have hl : p.conn.Live g := ⟨hg, by rw [hst]; decide⟩
        obtain ⟨hip', hport', -⟩ := h.rcv.live hl
        have hcar := NetOp.frame_carries (hpeer (h.since hl)) hframe (hip'.symm.trans hip)
          (hport'.symm.trans hport) hsyn
        rw [AtData.done, tcpInFin, if_neg (by rw [hfin]; decide)]
        exact h.stored hS hg hst hip hport hsyn hcar
  · exact h.done_other hmine

end

/-- A run with a peer whose stream is `S`, a caller that empties the ring, and FINs in order. -/
structure ClosingRun (S : List UInt8) (irs : BitVec 32) (ip : List UInt8) (port : Nat) (i : Fin n)
    (g : Nat) (ops : List (NetOp n)) (net : Net n) : Prop where
  peer : FromPeer S irs ip port i g ops net
  ends : FinAtEnd S irs ip port i g ops net
  drains : Drains i ops net
  fins : FinInOrder i g ops net

theorem ClosingRun.split (pre : List (NetOp n)) {ops : List (NetOp n)}
    (h : ClosingRun S irs ip port i g (pre ++ ops) net) :
    ClosingRun S irs ip port i g pre net ∧ ClosingRun S irs ip port i g ops (netRun pre net) := by
  have hrun : ∀ more, netRun (pre ++ more) net = netRun more (netRun pre net) :=
    fun more => List.foldl_append
  refine ⟨⟨?_, ?_, ?_, ?_⟩, ⟨?_, ?_, ?_, ?_⟩⟩
  · intro pre' now pkt post heq
    exact h.peer pre' now pkt (post ++ ops) (by simp [heq])
  · intro pre' now pkt post heq
    exact h.ends pre' now pkt (post ++ ops) (by simp [heq])
  · intro pre' op post heq
    exact h.drains pre' op (post ++ ops) (by simp [heq])
  · intro pre' now pkt post p heq
    exact h.fins pre' now pkt (post ++ ops) p (by simp [heq])
  · intro pre' now pkt post heq
    rw [← hrun]
    exact h.peer (pre ++ pre') now pkt post (by simp [heq])
  · intro pre' now pkt post heq
    rw [← hrun]
    exact h.ends (pre ++ pre') now pkt post (by simp [heq])
  · intro pre' op post heq
    rw [← hrun]
    exact h.drains (pre ++ pre') op post (by simp [heq])
  · intro pre' now pkt post p heq
    rw [← hrun]
    exact h.fins (pre ++ pre') now pkt post p (by simp [heq])

/-- Before a call that is not `net_rx_getc` the slot is idle. -/
theorem ClosingRun.idle {op : NetOp n} (hrun : ClosingRun S irs ip port i g [op] net)
    (hop : ∀ j, op ≠ .rxGetc j) (h : AckInv S irs ip port g got i net) :
    Idle S irs ip port g got ((net.conns i).Live g) i net :=
  ⟨h, fun _ => netRxGetc_none (hrun.drains [] op [] rfl hop), id⟩

theorem ClosingRun.op (hS : S.length < 2 ^ 32) {op : NetOp n}
    (hrun : ClosingRun S irs ip port i g [op] net) (h : AckInv S irs ip port g got i net) :
    AckInv S irs ip port g (got ++ op.reads i g net) i (op.run net) := by
  by_cases hop : ∃ j, op = .rxGetc j
  · obtain ⟨j, rfl⟩ := hop
    by_cases hij : j = i
    · subst hij
      simpa [NetOp.reads, NetOp.run] using h.getc
    · have hreads : NetOp.reads i g net (.rxGetc j) = [] := if_neg fun hc => hij hc.1
      rw [hreads, List.append_nil]
      refine h.congr ?_ ?_
      all_goals
        simp only [NetOp.run, netRxGetc]
        split
      · rfl
      · exact Net.set_conns_ne _ _ (Ne.symm hij)
      · rfl
      · rfl
  · have hop' := not_exists.mp hop
    have hreads : op.reads i g net = [] := by
      cases op with
      | rxGetc j => exact absurd rfl (hop' j)
      | _ => rfl
    rw [hreads, List.append_nil]
    refine (Idle.survives (L := (net.conns i).Live g) hS).run (AckInv.carried hS)
      (fun _ h => h.toAckInv) op hop' ?_ (hrun.idle hop' h)
    rintro now pkt p rfl hp hidle
    refine hidle.poll hS ?_ hrun.ends hrun.fins hp
    intro hl now' pkt' heq
    exact hrun.peer [] now' pkt' [] (by rw [heq]; rfl) hl

theorem ClosingRun.acked (hS : S.length < 2 ^ 32) : ∀ {ops : List (NetOp n)} {net : Net n}
    {got : List UInt8}, ClosingRun S irs ip port i g ops net → AckInv S irs ip port g got i net →
    AckInv S irs ip port g (got ++ rxBytes i g ops net) i (netRun ops net)
  | [], net, got, _, h => by simpa [rxBytes, netRun] using h
  | op :: ops, net, got, hrun, h => by
      obtain ⟨hone, hrest⟩ := ClosingRun.split [op] hrun
      have ih := ClosingRun.acked hS hrest (hone.op hS h)
      rw [List.append_assoc] at ih
      exact ih

/-- After the poll that receives the SYN, nothing of the stream is acknowledged. -/
theorem netPoll_syn_ackInv {now : BitVec 32} {syn : List UInt8} (hr : NetReach net)
    (htake : netPollTakes now (some syn) net = some i) (hS : S.length < 2 ^ 32) :
    AckInv S (packetHdr net syn).seq (packetHdr net syn).srcIp (packetHdr net syn).sport
      ((netPoll now (some syn) net).conns i).gen [] i (netPoll now (some syn) net) := by
  have hgen : ((netPoll now (some syn) net).conns i).gen =
      ((tcpInSynAccept now { netTimers now net with work := overlay net.work 0 (syn.take WORK_SZ) }
        (packetHdr net syn) i).conns i).gen := by
    rw [netPoll, netReceive_syn htake, (netTxFlush_conns now _ i).same]
  rw [hgen, netPoll, netReceive_syn htake]
  refine (AckInv.carried hS).flush ?_ now
  have hedge : ∀ g, EdgeInv i g
      { netTimers now net with work := overlay net.work 0 (syn.take WORK_SZ) } := fun g =>
    (EdgeInv.survives i g).quiet ((EdgeInv.survives i g).timers (hr.edgeInv i g) now)
      (.still (fun _ _ => rfl) rfl)
  generalize { netTimers now net with work := overlay net.work 0 (syn.take WORK_SZ) } = net₁ at hedge
  generalize packetHdr net syn = hd
  have hrcv := tcpInSynAccept_rcvInv now net₁ hd i S
  have hconn : (tcpInSynAccept now net₁ hd i).conns i =
      { synConn now hd i (net₁.conns i) with
        sndNxt := (synConn now hd i (net₁.conns i)).sndNxt + 1
        rexmitAt := now + REXMIT_TICKS
        sndMax := (synConn now hd i (net₁.conns i)).sndNxt + 1 } := Net.set_conns_self _ _ _
  have hstart : ∀ l : List UInt8, S.take (streamPos hd.seq (hd.seq + 1)) <+: l := by
    intro l
    rw [streamPos, sub_self]
    exact List.nil_prefix
  refine ⟨hrcv, ?_, ?_⟩
  · intro s hs
    have hnone : segsOf i ((net₁.conns i).gen + 1) net₁.log = [] :=
      List.map_eq_nil_iff.mp ((hedge _).future (Nat.lt_succ_self _))
    rw [hconn] at hs
    rw [segsOf_syn, if_pos ⟨rfl, rfl⟩] at hs
    rcases List.mem_cons.mp hs with rfl | hs
    · exact hstart _
    · rw [show (synConn now hd i (net₁.conns i)).gen = (net₁.conns i).gen + 1 from rfl, hnone] at hs
      cases hs
  · intro _
    rw [hconn]
    exact hstart _

/-! ## No acknowledged byte is lost -/

/-- What is wanted of connection `g` of slot `i` in a run: what was read is the stream of the peer,
all that was acknowledged was read by the time the ring is empty, and a FIN is acknowledged when all
of the stream was stored. -/
structure ReadsAcked (S : List UInt8) (irs : BitVec 32) (i : Fin n) (g : Nat)
    (ops : List (NetOp n)) (net : Net n) : Prop where
  read : rxBytes i g ops net <+: S
  acked : (netRxGetc (netRun ops net) i).1 = none → ∀ s ∈ segsOf i g (netRun ops net).log,
    S.take (streamPos irs s.ack) <+: rxBytes i g ops net
  fin : ∀ pre now pkt post p, ops = pre ++ .poll now pkt :: post →
    netPollAtData now pkt (netRun pre net) = some p → p.slot = i → p.conn.gen = g →
    hasFlag p.hdr.flags 0x01 = true →
    (rxBytes i g pre net).length + (p.stored.conns i).rcvUsed = S.length

theorem ClosingRun.readsAcked (hS : S.length < 2 ^ 32) {ops : List (NetOp n)}
    (hrun : ClosingRun S irs ip port i g ops net) (h : AckInv S irs ip port g [] i net) :
    ReadsAcked S irs i g ops net := by
  have hall := hrun.acked hS h
  rw [List.nil_append] at hall
  refine ⟨hall.rcv.read, fun hnone s hs => ?_, ?_⟩
  · have hacked := hall.acked s hs
    rwa [Conn.kept_empty hall.rcv.read fun _ => netRxGetc_none hnone] at hacked
  · rintro pre now pkt post p rfl hp hi hg hfin
    obtain ⟨hpre, hpost⟩ := ClosingRun.split pre hrun
    obtain ⟨hone, -⟩ := ClosingRun.split [.poll now pkt] hpost
    have hack := hpre.acked hS h
    rw [List.nil_append] at hack
    have hidle := (Idle.survives hS).atData (hone.idle (fun j hj => by cases hj) hack) hp
    have hin := hone.fins [] now pkt [] p rfl hp hi hg hfin
    have hend := hidle.atEnd_of_fin hS (fun hl now' pkt' heq =>
      hone.peer [] now' pkt' [] (by rw [heq]; rfl) hl) hone.ends hp hi hg hfin hin
    subst hi
    rw [hend.read, hend.ring, AtData.conn, Conn.rcvUsed_empty (hidle.empty hg), Nat.add_zero]

/-- A SYN takes a slot, and any calls follow.  When every FIN that comes to the connection ends where
`rcv_nxt` already stands, no acknowledged byte is lost. -/
theorem fin_in_order_reads_acked {net : Net n} (hr : NetReach net) {now : BitVec 32}
    {syn : List UInt8} {i : Fin n} {g : Nat} (htake : netPollTakes now (some syn) net = some i)
    (hg : g = ((netPoll now (some syn) net).conns i).gen) {S : List UInt8}
    (hS : S.length < 2 ^ 32) {ops : List (NetOp n)}
    (hpeer : FromPeer S (packetHdr net syn).seq (packetHdr net syn).srcIp
      (packetHdr net syn).sport i g ops (netPoll now (some syn) net))
    (hends : FinAtEnd S (packetHdr net syn).seq (packetHdr net syn).srcIp
      (packetHdr net syn).sport i g ops (netPoll now (some syn) net))
    (hdrains : Drains i ops (netPoll now (some syn) net))
    (hfins : FinInOrder i g ops (netPoll now (some syn) net)) :
    ReadsAcked S (packetHdr net syn).seq i g ops (netPoll now (some syn) net) := by
  subst hg
  exact ClosingRun.readsAcked hS ⟨hpeer, hends, hdrains, hfins⟩ (netPoll_syn_ackInv hr htake hS)

/-- Every call of a run meets a condition on the state before it. -/
def CallsMeet (R : Net n → NetOp n → Prop) : List (NetOp n) → Net n → Prop
  | [], _ => True
  | op :: ops, net => R net op ∧ CallsMeet R ops (op.run net)

theorem CallsMeet.at {R : Net n → NetOp n → Prop} : ∀ {ops : List (NetOp n)} {net : Net n},
    CallsMeet R ops net → ∀ pre op post, ops = pre ++ op :: post → R (netRun pre net) op
  | [], _, _, pre, op, post, heq => by simp at heq
  | _ :: _, _, h, [], _, _, heq => by
      cases heq
      exact h.1
  | _ :: _, _, h, _ :: pre, op, post, heq => by
      cases heq
      exact h.2.at pre op post rfl

/-- A segment of the client in `sampleSyn` with a FIN. -/
def sampleFin (o : Nat) (data : List UInt8) : List UInt8 :=
  peerFrame [10, 0, 2, 2] [10, 0, 2, 15] 1000 22 (6 + o) 0x13701 0x11 data

theorem sampleFrames_fromPeer (ops : List (NetOp 2)) (net : Net 2) (port : Nat)
    (hops : ∀ now pkt, NetOp.poll now (some pkt) ∈ ops →
      pkt ∈ [sampleData 0 [104, 105], sampleFin 0 [104, 105], sampleFin 2 []]) :
    FromPeer [104, 105] 5 [10, 0, 2, 2] port 0 1 ops net ∧
      FinAtEnd [104, 105] 5 [10, 0, 2, 2] port 0 1 ops net := by
  have hmem : ∀ pre now pkt post, ops = pre ++ .poll now (some pkt) :: post →
      pkt ∈ [sampleData 0 [104, 105], sampleFin 0 [104, 105], sampleFin 2 []] :=
    fun pre now pkt post heq => hops now pkt (by simp [heq])
  constructor
  · intro pre now pkt post heq _ _
    have h := hmem pre now pkt post heq
    simp only [List.mem_cons, List.not_mem_nil, or_false] at h
    rcases h with rfl | rfl | rfl <;>
      refine ⟨⟨by decide +kernel, by decide +kernel, by decide +kernel, by decide +kernel,
        by decide +kernel⟩, fun _ _ => ?_⟩ <;>
      unfold Carries <;> decide +kernel
  · intro pre now pkt post heq _ _ _ _ hfin
    have h := hmem pre now pkt post heq
    simp only [List.mem_cons, List.not_mem_nil, or_false] at h
    rcases h with rfl | rfl | rfl
    · revert hfin
      decide +kernel
    · decide +kernel
    · decide +kernel

/-- The client sends `hi`, and its FIN when that was read. -/
def politeClient : List (NetOp 2) :=
  [.poll 1 (some (sampleData 0 [104, 105])), sampleGetc, sampleGetc, sampleGetc,
    .poll 2 (some (sampleFin 2 []))]

/-- The client sends `hi` and its FIN in one segment. -/
def hastyClient : List (NetOp 2) :=
  [.poll 1 (some (sampleFin 0 [104, 105])), sampleGetc, sampleGetc, sampleGetc]

theorem fin_in_order_reads_acked_polite :
    ReadsAcked [104, 105] (packetHdr sampleOpen sampleSyn).seq 0 1 politeClient
      (netPoll 0 (some sampleSyn) sampleOpen) := by
  have hr : NetReach sampleOpen := ⟨_, _, _, [], rfl⟩
  have htake : netPollTakes 0 (some sampleSyn) sampleOpen = some 0 := by decide +kernel
  have hseq : (packetHdr sampleOpen sampleSyn).seq = 5 := by decide +kernel
  have hip : (packetHdr sampleOpen sampleSyn).srcIp = [10, 0, 2, 2] := by decide +kernel
  have hpeer := sampleFrames_fromPeer politeClient (netPoll 0 (some sampleSyn) sampleOpen)
    (packetHdr sampleOpen sampleSyn).sport
    (fun now pkt hmem => by
      simp only [politeClient, sampleGetc, List.mem_cons, NetOp.poll.injEq, Option.some.injEq, reduceCtorEq,
        List.not_mem_nil, or_false, false_or] at hmem
      rcases hmem with ⟨-, rfl⟩ | ⟨-, rfl⟩ <;> simp)
  refine fin_in_order_reads_acked hr htake (by decide +kernel) (by decide)
    (by rw [hseq, hip]; exact hpeer.1) (by rw [hseq, hip]; exact hpeer.2) ?_ ?_
  · refine CallsMeet.at (R := fun net op =>
      (∀ j, op ≠ .rxGetc j) → (netRxGetc net 0).1 = none) ?_
    refine ⟨fun _ => ?_, fun h => absurd rfl (h 0), fun h => absurd rfl (h 0),
      fun h => absurd rfl (h 0), fun _ => ?_, trivial⟩
    · decide +kernel
    · decide +kernel
  · have hfin : CallsMeet (fun net op => ∀ now pkt, op = .poll now pkt →
        (netPollAtData now pkt net).all (fun p => decide (p.slot = 0 → p.conn.gen = 1 →
          hasFlag p.hdr.flags 0x01 = true →
          p.hdr.seq + BitVec.ofNat 32 p.hdr.dlen = p.conn.rcvNxt)) = true) politeClient
        (netPoll 0 (some sampleSyn) sampleOpen) := by
      refine ⟨?_, ?_, ?_, ?_, ?_, trivial⟩
      all_goals
        intro now pkt hop
        cases hop
      · decide +kernel
      · decide +kernel
    intro pre now pkt post p heq hp
    have hall := hfin.at pre _ post heq now pkt rfl
    rw [Option.all_eq_true] at hall
    exact of_decide_eq_true (hall p hp)

/-- The bytes that come with the FIN are acknowledged and lost. -/
theorem fin_drops_data :
    NetReach sampleOpen ∧ netPollTakes 0 (some sampleSyn) sampleOpen = some 0 ∧
      ((netPoll 0 (some sampleSyn) sampleOpen).conns 0).gen = 1 ∧
      FromPeer [104, 105] (packetHdr sampleOpen sampleSyn).seq
        (packetHdr sampleOpen sampleSyn).srcIp (packetHdr sampleOpen sampleSyn).sport 0 1 hastyClient
        (netPoll 0 (some sampleSyn) sampleOpen) ∧
      FinAtEnd [104, 105] (packetHdr sampleOpen sampleSyn).seq
        (packetHdr sampleOpen sampleSyn).srcIp (packetHdr sampleOpen sampleSyn).sport 0 1 hastyClient
        (netPoll 0 (some sampleSyn) sampleOpen) ∧
      Drains 0 hastyClient (netPoll 0 (some sampleSyn) sampleOpen) ∧
      ¬ ReadsAcked [104, 105] (packetHdr sampleOpen sampleSyn).seq 0 1 hastyClient
        (netPoll 0 (some sampleSyn) sampleOpen) := by
  have hseq : (packetHdr sampleOpen sampleSyn).seq = 5 := by decide +kernel
  have hip : (packetHdr sampleOpen sampleSyn).srcIp = [10, 0, 2, 2] := by decide +kernel
  have hpeer := sampleFrames_fromPeer hastyClient (netPoll 0 (some sampleSyn) sampleOpen)
    (packetHdr sampleOpen sampleSyn).sport
    (fun now pkt hmem => by
      simp only [hastyClient, sampleGetc, List.mem_cons, NetOp.poll.injEq, Option.some.injEq, reduceCtorEq,
        List.not_mem_nil, or_false] at hmem
      obtain ⟨-, rfl⟩ := hmem
      simp)
  rw [hseq, hip]
  refine ⟨⟨_, _, _, [], rfl⟩, by decide +kernel, by decide +kernel, hpeer.1, hpeer.2, ?_, ?_⟩
  · refine CallsMeet.at (R := fun net op =>
      (∀ j, op ≠ .rxGetc j) → (netRxGetc net 0).1 = none) ?_
    refine ⟨fun _ => ?_, fun h => absurd rfl (h 0), fun h => absurd rfl (h 0),
      fun h => absurd rfl (h 0), trivial⟩
    decide +kernel
  · intro h
    have hacked := h.acked (by decide +kernel)
    revert hacked
    decide +kernel

end Dossh
