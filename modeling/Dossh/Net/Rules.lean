import Dossh.Net.Isolation

/-!
# Rules for the receiving side

An invariant that relates the segments a connection sent to its receiving side has to be followed
through every call.  Most of what a call does is one of four things: it touches neither
(`Quiet`), it sends a segment, it gives a slot back, or a SYN takes a slot.  An invariant that is
closed under the first two is `Carried`, and one that is closed under all four `Survives`.  The
rules of this module then carry it through the calls.  What is left to show is what happens at the
data block of `tcp_in`, to which `netPollAtData` leads, and in `net_rx_getc`.
-/

namespace Dossh

variable {n : Nat} {net net' : Net n}

/-! ## Quiet steps -/

/-- The segments of connection `g` of slot `i`, newest first. -/
def segsOf (i : Fin n) (g : Nat) : List (NetEvent n) → List Seg
  | [] => []
  | .seg j g' _ s :: past => if j = i ∧ g' = g then s :: segsOf i g past else segsOf i g past
  | _ :: past => segsOf i g past
termination_by structural log => log

/-- No segment was sent, and the receiving side of every slot is as before. -/
structure Quiet (net net' : Net n) : Prop where
  segs : ∀ i g, segsOf i g net'.log = segsOf i g net.log
  slots : ∀ j, (net.conns j).SameRcv (net'.conns j)

theorem Conn.SameRcv.refl (c : Conn) : c.SameRcv c :=
  ⟨rfl, Iff.rfl, rfl, rfl, rfl, rfl, rfl, rfl⟩

theorem Quiet.still (hsegs : ∀ i g, segsOf i g net'.log = segsOf i g net.log)
    (hconns : net'.conns = net.conns) : Quiet net net' :=
  ⟨hsegs, fun j => by rw [hconns]; exact .refl _⟩

theorem Quiet.set {i : Fin n} {c : Conn} (h : (net.conns i).SameRcv c) : Quiet net (net.set i c) := by
  refine ⟨fun _ _ => rfl, fun j => ?_⟩
  rw [Net.set_conns]
  split
  next hji =>
    subst hji
    exact h
  next => exact .refl _

/-- An event is recorded that is no segment. -/
theorem Quiet.note {e : NetEvent n} {i : Fin n} {c : Conn} (h : (net.conns i).SameRcv c)
    (he : ∀ i g, segsOf i g (e :: net.log) = segsOf i g net.log) :
    Quiet net ((net.note e).set i c) :=
  ⟨he, (@Quiet.set n (net.note e) i c h).slots⟩

theorem segsOf_send (net : Net n) (j : Fin n) (flags : UInt8) (mss : Bool) (doff dlen : Nat)
    (i : Fin n) (g : Nat) :
    segsOf i g (tcpSendSeg net j flags mss doff dlen).log =
      if j = i ∧ (net.conns j).gen = g then
        (net.conns j).mkSeg flags mss doff dlen :: segsOf i g net.log
      else segsOf i g net.log := rfl

theorem segsOf_syn (now : BitVec 32) (net : Net n) (h : TcpHdr) (j i : Fin n) (g : Nat) :
    segsOf i g (tcpInSynAccept now net h j).log =
      if j = i ∧ (net.conns j).gen + 1 = g then
        (synConn now h j (net.conns j)).mkSeg 0x12 true 0 0 :: segsOf i g net.log
      else segsOf i g net.log := by
  simp only [tcpInSynAccept, Net.set_log, segsOf_send, Net.set_conns_self]
  rfl

/-! ## Invariants of calls that send -/

/-- Closed under quiet steps and segments. -/
structure Carried (P : Net n → Prop) : Prop where
  quiet : ∀ {net net' : Net n}, P net → Quiet net net' → P net'
  send : ∀ {net : Net n} (j : Fin n) (flags : UInt8) (mss : Bool) (doff dlen : Nat),
    P net → P (tcpSendSeg net j flags mss doff dlen)

variable {P Q : Net n → Prop}

/-- What holds of every step of a loop over slots holds of the loop. -/
theorem foldl_invariant {f : Net n → Fin n → Net n} (hf : ∀ net j, P net → P (f net j)) :
    ∀ (js : List (Fin n)) (net : Net n), P net → P (js.foldl f net)
  | [], _, h => h
  | j :: js, _, h => foldl_invariant hf js _ (hf _ j h)

namespace Carried

variable (hP : Carried P)
include hP

theorem set {i : Fin n} {c : Conn} (h : P net) (hc : (net.conns i).SameRcv c) : P (net.set i c) :=
  hP.quiet h (.set hc)

theorem outputLoop (now : BitVec 32) (j : Fin n) : ∀ (fuel unsent : Nat) (net : Net n),
    P net → P (tcpOutputLoop now j fuel unsent net)
  | 0, _, _, h => h
  | fuel + 1, unsent, net, h => by
      rw [tcpOutputLoop]
      split
      · exact h
      · refine outputLoop now j fuel _ _ ?_
        refine hP.set (hP.send j 0x18 false _ _ h) ?_
        exact ⟨rfl, Iff.rfl, rfl, rfl, rfl, rfl, rfl, rfl⟩

theorem flush (h : P net) (now : BitVec 32) : P (netTxFlush now net) := by
  refine foldl_invariant (fun net j h => ?_) _ net h
  unfold tcpOutput
  dsimp only
  split
  · exact h
  · exact hP.outputLoop now j _ _ net h

theorem append (h : P net) (kind : TxKind) (j : Fin n) (b : UInt8) :
    P (ringAppend kind net j b) := by
  refine hP.quiet h (.note ?_ fun _ _ => rfl)
  exact ⟨rfl, Iff.rfl, rfl, rfl, rfl, rfl, rfl, rfl⟩

theorem takeNew (h : P net) : P (netTakeNewSlot net).2 := by
  unfold netTakeNewSlot
  split
  · refine hP.set h ?_
    exact ⟨rfl, Iff.rfl, rfl, rfl, rfl, rfl, rfl, rfl⟩
  · exact h

theorem putcSlot (h : P net) (j : Fin n) (b : UInt8) : P (netTxPutcSlot net j b).2 := by
  unfold netTxPutcSlot
  split
  · exact h
  · exact hP.append h .unicast j b

theorem slotReady (h : P net) (j : Fin n) (v : Bool) : P (netSlotReady net j v) := by
  unfold netSlotReady
  dsimp only
  split
  · refine hP.quiet h (.note ?_ fun _ _ => rfl)
    exact ⟨rfl, Iff.rfl, rfl, rfl, rfl, rfl, rfl, rfl⟩
  · refine hP.set h ?_
    exact ⟨rfl, Iff.rfl, rfl, rfl, rfl, rfl, rfl, rfl⟩

end Carried

/-! ## Invariants of all calls -/

/-- Also closed under the end and the beginning of connections. -/
structure Survives (P : Net n → Prop) : Prop extends Carried P where
  reset : ∀ {net : Net n} (j : Fin n), P net → P (net.set j (tcpResetListen (net.conns j)))
  syn : ∀ {net : Net n} (now : BitVec 32) (h : TcpHdr) (j : Fin n),
    P net → P (tcpInSynAccept now net h j)

namespace Survives

variable (hP : Survives P)
include hP

theorem timer (now : BitVec 32) (net : Net n) (j : Fin n) (h : P net) :
    P (tcpTimer now net j) := by
  unfold tcpTimer
  dsimp only
  have hnote : P (net.note (.expire j (net.conns j).gen)) :=
    hP.quiet h (.still (fun _ _ => rfl) rfl)
  split
  · split
    · exact hP.reset j hnote
    · have hback := hP.set (i := j) (c := { net.conns j with
          rexmitCount := (net.conns j).rexmitCount + 1
          sNxt := (net.conns j).sUna
          sndNxt := (net.conns j).sndUna }) hnote
        ⟨rfl, Iff.rfl, rfl, rfl, rfl, rfl, rfl, rfl⟩
      split
      · refine hP.set (hP.send j 0x12 true 0 0 hback) ?_
        rw [tcpSendSeg_conns, Net.set_conns_self]
        exact ⟨rfl, Iff.rfl, rfl, rfl, rfl, rfl, rfl, rfl⟩
      · refine hP.set hback ?_
        rw [Net.set_conns_self]
        exact ⟨rfl, Iff.rfl, rfl, rfl, rfl, rfl, rfl, rfl⟩
  · exact h

theorem timers (h : P net) (now : BitVec 32) : P (netTimers now net) :=
  foldl_invariant (hP.timer now) _ net h

theorem check : ∀ (js : List (Fin n)) (net : Net n), P net → P (putcCheck js net).2
  | [], _, h => h
  | j :: js, net, h => by
      rw [putcCheck]
      split
      · split
        · exact check js _ (hP.reset j h)
        · exact h
      · exact check js net h

theorem putc (h : P net) (b : UInt8) : P (netTxPutc net b).2 := by
  unfold netTxPutc
  dsimp only
  split
  · refine foldl_invariant (fun net j h => ?_) _ _ (hP.check _ net h)
    unfold putcAppend
    split
    · exact hP.append h .screen j b
    · exact h
  · exact hP.check _ net h

theorem slotDrop (h : P net) (j : Fin n) : P (netSlotDrop net j) := by
  unfold netSlotDrop
  dsimp only
  split
  · exact hP.reset j (hP.send j 0x14 false 0 0 h)
  · exact hP.reset j h

end Survives

/-! ## Inbound segments -/

/-- A segment at the data block of `tcp_in`. -/
structure AtData (n : Nat) where
  net : Net n
  frame : Nat → UInt8
  slot : Fin n

/-- The header of the segment. -/
def AtData.hdr (p : AtData n) : TcpHdr := tcpHdr p.frame

/-- The connection it is for. -/
def AtData.conn (p : AtData n) : Conn := p.net.conns p.slot

/-- The stack after the data block. -/
def AtData.stored (p : AtData n) : Net n := tcpInData p.frame p.net p.hdr p.slot

/-- The stack after the rest of `tcp_in`. -/
def AtData.done (p : AtData n) : Net n := tcpInFin p.stored p.hdr p.slot

/-- The state in which `tcp_in` comes to its data block, if it does. -/
def tcpInAtData (now : BitVec 32) (net : Net n) (f : Nat → UInt8) : Option (AtData n) :=
  let h := tcpHdr f
  if h.dport ≠ net.myPort then none
  else if h.tcplen < h.toff then none
  else if hasFlag h.flags 0x04 || hasFlag h.flags 0x02 then none
  else
    (findConn net h.sport h.srcIp).bind fun i =>
      (tcpInSynrcvd net h i).bind fun net =>
        if (net.conns i).tstate ≠ .estab then none
        else some ⟨net.set i (tcpInAck now h (net.conns i)), f, i⟩

/-- The same for the packet that `net_poll` receives. -/
def netPollAtData (now : BitVec 32) (pkt : Option (List UInt8)) (net : Net n) : Option (AtData n) :=
  pkt.bind fun stage =>
    let net := netTimers now net
    let frame := stage.take WORK_SZ
    let work := overlay net.work 0 frame
    let net := { net with work := work }
    if tcpFrame net work frame.length then tcpInAtData now net work else none

section

variable {now : BitVec 32} {f : Nat → UInt8} {pkt : Option (List UInt8)} {p : AtData n}

theorem tcpInAtData_some (h : tcpInAtData now net f = some p) :
    ∃ i net', tcpInSynrcvd net (tcpHdr f) i = some net' ∧
      p = ⟨net'.set i (tcpInAck now (tcpHdr f) (net'.conns i)), f, i⟩ ∧
      findConn net (tcpHdr f).sport (tcpHdr f).srcIp = some i ∧
      hasFlag (tcpHdr f).flags 0x02 = false ∧ (net'.conns i).tstate = .estab ∧
      tcpIn now net f = p.done := by
  unfold tcpInAtData at h
  dsimp only at h
  split at h
  · cases h
  next hport =>
    split at h
    · cases h
    next hlen =>
      split at h
      · cases h
      next hflags =>
        rw [Bool.or_eq_true, not_or] at hflags
        obtain ⟨i, hfind, h⟩ := Option.bind_eq_some_iff.mp h
        obtain ⟨net', hs, h⟩ := Option.bind_eq_some_iff.mp h
        split at h
        · cases h
        next hst =>
          cases h
          refine ⟨i, net', hs, rfl, hfind, Bool.eq_false_iff.mpr hflags.2, not_not.mp hst, ?_⟩
          rw [tcpIn, if_neg hport, if_neg hlen, if_neg hflags.1, if_neg hflags.2, hfind]
          simp only [tcpInConn, hs]
          rw [if_neg hst]
          rfl

theorem tcpInSynrcvd_quiet {h : TcpHdr} {i : Fin n} (hs : tcpInSynrcvd net h i = some net') :
    Quiet net net' := by
  have hsame := tcpInSynrcvd_sameRcv hs
  unfold tcpInSynrcvd at hs
  dsimp only at hs
  split at hs
  · split at hs
    · cases hs
      rw [Net.set_conns_self] at hsame
      exact .note hsame fun _ _ => rfl
    · cases hs
  · cases hs
    exact .still (fun _ _ => rfl) rfl

/-- A segment that does not come to the data block. -/
theorem Survives.tcpIn_none (hP : Survives P) (h : P net) (hnone : tcpInAtData now net f = none) :
    P (tcpIn now net f) := by
  unfold tcpInAtData at hnone
  unfold tcpIn
  dsimp only at hnone ⊢
  split
  · exact h
  next hport =>
    split
    · exact h
    next hlen =>
      rw [if_neg hport, if_neg hlen] at hnone
      split
      · unfold tcpInRst
        split
        next j _ => exact hP.reset j h
        next => exact h
      next hrst =>
        split
        · unfold tcpInSyn
          split
          · exact h
          · split
            · exact hP.quiet h (.still (fun _ _ => rfl) rfl)
            next j _ => exact hP.syn now _ j h
        next hsyn =>
          rw [if_neg (by rw [Bool.or_eq_true, not_or]; exact ⟨hrst, hsyn⟩)] at hnone
          split
          · exact h
          next j hfind =>
            rw [hfind, Option.bind_some] at hnone
            unfold tcpInConn
            split
            · exact h
            next net' hs =>
              rw [hs, Option.bind_some] at hnone
              split
              · exact hP.quiet h (tcpInSynrcvd_quiet hs)
              next hst =>
                rw [if_neg hst] at hnone
                cases hnone

/-- A packet that does not come to the data block. -/
theorem Survives.receive_none (hP : Survives P) (h : P net)
    (hnone : netPollAtData now pkt net = none) : P (netReceive now (netTimers now net) pkt) := by
  have htimers := hP.timers h now
  cases pkt with
  | none => exact htimers
  | some stage =>
      simp only [netPollAtData, Option.bind_some] at hnone
      simp only [netReceive]
      generalize overlay (netTimers now net).work 0 (stage.take WORK_SZ) = f at hnone
      have hwork : P { netTimers now net with work := f } :=
        hP.quiet htimers (.still (fun _ _ => rfl) rfl)
      cases htcp : tcpFrame { netTimers now net with work := f } f (stage.take WORK_SZ).length with
      | true =>
          rw [if_pos htcp] at hnone
          rw [handleFrame_tcp now _ f _ htcp]
          exact hP.tcpIn_none hwork hnone
      | false =>
          rcases handleFrame_other now _ f _ htcp with heq | heq
          · rw [heq]
            exact hwork
          · rw [heq]
            unfold arpIn
            dsimp only
            repeat' split
            all_goals exact hP.quiet hwork (.still (fun _ _ => rfl) rfl)

/-- A packet that comes to the data block. -/
theorem netPollAtData_some (hp : netPollAtData now pkt net = some p) :
    netReceive now (netTimers now net) pkt = p.done ∧
      NetOp.frame (.poll now pkt) net p.frame ∧ p.conn.tstate = .estab ∧
      p.conn.peerIp = p.hdr.srcIp ∧ p.conn.peerPort = p.hdr.sport ∧
      hasFlag p.hdr.flags 0x02 = false := by
  obtain ⟨stage, rfl, hstage⟩ := Option.bind_eq_some_iff.mp hp
  clear hp
  dsimp only at hstage
  obtain ⟨hwork, hip, _⟩ := netTimers_frame now net
  split at hstage
  next htcp =>
    obtain ⟨i, net', hs, rfl, hfind, hsyn, hst, hdone⟩ := tcpInAtData_some hstage
    obtain ⟨hport, hsrc⟩ := findConn_peer hfind
    have hfirst := tcpInSynrcvd_sameRcv hs
    have hack := tcpInAck_sameRcv now (tcpHdr (overlay (netTimers now net).work 0
      (stage.take WORK_SZ))) (net'.conns i)
    refine ⟨?_, ⟨now, stage, rfl, ?_, ?_⟩, ?_, ?_, ?_, hsyn⟩
    · simp only [netReceive]
      rw [handleFrame_tcp now _ _ _ htcp, hdone]
    · rw [hwork]
    · rw [← htcp]
      simp only [tcpFrame, hip]
    · rw [AtData.conn, Net.set_conns_self, tcpInAck_tstate, hst]
    · rw [AtData.conn, Net.set_conns_self, hack.ip, hfirst.ip]
      exact hsrc
    · rw [AtData.conn, Net.set_conns_self, hack.port, hfirst.port]
      exact hport
  next => cases hstage

theorem Survives.atData (hP : Survives P) (h : P net) (hp : netPollAtData now pkt net = some p) :
    P p.net := by
  obtain ⟨stage, rfl, hstage⟩ := Option.bind_eq_some_iff.mp hp
  clear hp
  dsimp only at hstage
  split at hstage
  next =>
    obtain ⟨i, net', hs, rfl, -⟩ := tcpInAtData_some hstage
    have hwork : P { netTimers now net with
        work := overlay (netTimers now net).work 0 (stage.take WORK_SZ) } :=
      hP.quiet (hP.timers h now) (.still (fun _ _ => rfl) rfl)
    exact hP.set (hP.quiet hwork (tcpInSynrcvd_quiet hs)) (tcpInAck_sameRcv now _ _)
  next => cases hstage

/-- A poll, up to what its data block does. -/
theorem Survives.poll (hP : Survives P) (hQ : Carried Q) (hPQ : ∀ net, P net → Q net)
    (hdata : ∀ p, netPollAtData now pkt net = some p → P p.net → Q p.done) (h : P net) :
    Q (netPoll now pkt net) := by
  refine hQ.flush ?_ now
  cases hp : netPollAtData now pkt net with
  | none => exact hPQ _ (hP.receive_none h hp)
  | some p =>
      rw [(netPollAtData_some hp).1]
      exact hdata p hp (hP.atData h hp)

end

/-- Every call but `net_rx_getc`. -/
theorem Survives.run (hP : Survives P) (hQ : Carried Q) (hPQ : ∀ net, P net → Q net)
    (op : NetOp n) (hop : ∀ j, op ≠ .rxGetc j)
    (hdata : ∀ now pkt p, op = .poll now pkt → netPollAtData now pkt net = some p → P p.net →
      Q p.done) (h : P net) : Q (op.run net) := by
  cases op with
  | poll now pkt => exact hP.poll hQ hPQ (fun p => hdata now pkt p rfl) h
  | takeNew => exact hPQ _ (hP.takeNew h)
  | putc b => exact hPQ _ (hP.putc h b)
  | putcSlot j b => exact hPQ _ (hP.putcSlot h j b)
  | flush now => exact hPQ _ (hP.flush h now)
  | slotReady j v => exact hPQ _ (hP.slotReady h j v)
  | slotDrop j => exact hPQ _ (hP.slotDrop h j)
  | rxGetc j => exact absurd rfl (hop j)

end Dossh
