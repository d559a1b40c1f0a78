import Mathlib.Logic.Relation
import Dossh.Net.Api

/-!
# What the stack can do

Every call of the interface is a sequence of acts, each of which changes one
slot in one way.  `Act S T` lists them, with the conditions under which the
source performs them.  `S` restricts the slots a fresh SYN may take, so that a
result about runs in which slots are only taken in some states can be stated,
and a timer expires only if `T`, so that a result about the code outside the
timers can be.
An invariant is proved once per act and holds along every run by
`Acts.preserves`.

Admission to the broadcast (`net_slot_ready`) is no act: it is the framing code
that decides about it.
-/

namespace Dossh

variable {n : Nat} {S : Fin n → Conn → Prop} {T : Prop}

/-- Only the receive ring and `rcv_nxt` differ. -/
structure Conn.SameButRcv (c c' : Conn) : Prop where
  eq : c' = { c with rbuf := c'.rbuf, rHead := c'.rHead, rcvNxt := c'.rcvNxt }

theorem Conn.SameButRcv.advance {c c' : Conn} (h : c.SameButRcv c') (nxt : BitVec 32) :
    c.SameButRcv { c' with rcvNxt := nxt } := ⟨by rw [h.eq]⟩

theorem Conn.SameButRcv.gen {c c' : Conn} (h : c.SameButRcv c') : c'.gen = c.gen := by rw [h.eq]

/-- One act of the stack. -/
inductive Act (S : Fin n → Conn → Prop) (T : Prop) (net : Net n) : Net n → Prop where
  | work (w : Nat → UInt8) : Act S T net { net with work := w }
  | refuse (ipId : Nat) (s : Seg) :
      Act S T net { net with gIpId := ipId, log := .refuse ipId s :: net.log }
  | arp (frame : List UInt8) : Act S T net (net.note (.arp frame))
  | reset (i : Fin n) : Act S T net (net.set i (tcpResetListen (net.conns i)))
  | send (i : Fin n) (flags : UInt8) (mss : Bool) :
      Act S T net (tcpSendSeg net i flags mss 0 0)
  | syn (now : BitVec 32) (h : TcpHdr) (i : Fin n) (hs : S i (net.conns i)) :
      Act S T net (tcpInSynAccept now net h i)
  | estab (i : Fin n) (hst : (net.conns i).tstate = .synrcvd) :
      Act S T net ((net.note (.estab i (net.conns i).gen (net.conns i).sndNxt)).set i
        { net.conns i with
          sndUna := (net.conns i).sndNxt, tstate := .estab, justEstab := true, rexmitCount := 0 })
  | ack (now : BitVec 32) (h : TcpHdr) (i : Fin n)
      (hst : (net.conns i).tstate = .estab) :
      Act S T net (net.set i (tcpInAck now h (net.conns i)))
  | store (i : Fin n) (c : Conn) (hst : (net.conns i).tstate = .estab)
      (hc : (net.conns i).SameButRcv c) : Act S T net (net.set i c)
  | get (i : Fin n) (hne : (net.conns i).rTail ≠ (net.conns i).rHead) :
      Act S T net (net.set i
        { net.conns i with rTail := ((net.conns i).rTail + 1) % RCV_SZ })
  | timer (now : BitVec 32) (i : Fin n) (hT : T) (hex : (net.conns i).expired now = true) :
      Act S T net (tcpTimer now net i)
  | output (now : BitVec 32) (i : Fin n) (k : Nat)
      (hst : (net.conns i).tstate = .estab) (hk : k ≤ (net.conns i).unsent) :
      Act S T net (tcpOutputOne now net i k)
  | append (kind : TxKind) (i : Fin n) (b : UInt8)
      (hroom : (net.conns i).used < SND_SZ - 1)
      (hadm : kind = .screen → (net.conns i).admitted = true) :
      Act S T net (ringAppend kind net i b)
  | taken (i : Fin n) :
      Act S T net (net.set i { net.conns i with justEstab := false })

/-- A sequence of acts. -/
def Acts (S : Fin n → Conn → Prop) (T : Prop) : Net n → Net n → Prop :=
  Relation.ReflTransGen (Act S T)

namespace Acts

theorem refl (net : Net n) : Acts S T net net := Relation.ReflTransGen.refl

theorem single {net net' : Net n} (h : Act S T net net') : Acts S T net net' :=
  Relation.ReflTransGen.single h

theorem trans {net net' net'' : Net n} (h : Acts S T net net') (h' : Acts S T net' net'') :
    Acts S T net net'' := Relation.ReflTransGen.trans h h'

/-- An invariant of every act is an invariant of every sequence of acts. -/
theorem preserves {P : Net n → Prop} (hP : ∀ net net', P net → Act S T net net' → P net')
    {net net' : Net n} (h : Acts S T net net') (h0 : P net) : P net' := by
  induction h with
  | refl => exact h0
  | tail _ hact ih => exact hP _ _ ih hact

/-- A loop whose turns are acts is a sequence of acts. -/
theorem foldl {α : Type*} {f : Net n → α → Net n} (hf : ∀ net a, Acts S T net (f net a)) :
    ∀ (l : List α) (net : Net n), Acts S T net (l.foldl f net)
  | [], net => refl net
  | a :: l, net => (hf net a).trans (foldl hf l (f net a))

end Acts

/-! ## Output -/

@[simp] theorem tcpSendSeg_conns (net : Net n) (i : Fin n) (flags : UInt8) (mss : Bool)
    (doff dlen : Nat) : (tcpSendSeg net i flags mss doff dlen).conns = net.conns := rfl

/-- A turn of `tcp_output` takes `k` bytes off the unsent ones. -/
theorem tcpOutputOne_unsent (now : BitVec 32) (net : Net n) (i : Fin n) {k : Nat}
    (hk : k ≤ (net.conns i).unsent) :
    ((tcpOutputOne now net i k).conns i).unsent = (net.conns i).unsent - k := by
  simp only [tcpOutputOne, Net.set_conns_self, Conn.unsent]
  exact Ring.dist_add (by decide) hk

theorem tcpOutputLoop_acts (now : BitVec 32) (i : Fin n) :
    ∀ (fuel unsent : Nat) (net : Net n), (net.conns i).tstate = .estab →
      unsent = (net.conns i).unsent → Acts S T net (tcpOutputLoop now i fuel unsent net)
  | 0, _, net, _, _ => .refl net
  | fuel + 1, unsent, net, hst, hu => by
      rw [tcpOutputLoop]
      split
      · exact .refl net
      next hne =>
        generalize hk : (if unsent > MSS_TX then MSS_TX else unsent) = k
        have hk' : k ≤ unsent := by
          subst hk
          split <;> omega
        have hstep : Act S T net (tcpOutputOne now net i k) := .output now i k hst (hu ▸ hk')
        refine (Acts.single hstep).trans (tcpOutputLoop_acts now i fuel _ _ ?_ ?_)
        · simpa [tcpOutputOne] using hst
        · rw [tcpOutputOne_unsent now net i (hu ▸ hk'), hu]

theorem tcpOutput_acts (now : BitVec 32) (net : Net n) (i : Fin n) :
    Acts S T net (tcpOutput now net i) := by
  unfold tcpOutput
  dsimp only
  split
  · exact .refl net
  next hst =>
    rw [not_not] at hst
    exact tcpOutputLoop_acts now i _ _ net hst rfl

theorem netTxFlush_acts (now : BitVec 32) (net : Net n) : Acts S T net (netTxFlush now net) :=
  Acts.foldl (tcpOutput_acts now) _ net

/-! ## Timers -/

theorem tcpTimer_acts (hT : T) (now : BitVec 32) (net : Net n) (i : Fin n) :
    Acts S T net (tcpTimer now net i) := by
  by_cases hex : (net.conns i).expired now = true
  · exact .single (.timer now i hT hex)
  · unfold tcpTimer
    rw [if_neg hex]
    exact .refl net

theorem netTimers_acts (hT : T) (now : BitVec 32) (net : Net n) :
    Acts S T net (netTimers now net) :=
  Acts.foldl (tcpTimer_acts hT now) _ net

/-! ## Inbound frames -/

/-- Storing into the receive ring changes nothing else. -/
theorem rcvStore_sameButRcv (f : Nat → UInt8) :
    ∀ (k o : Nat) (c : Conn), c.SameButRcv (rcvStore f k o c).1
  | 0, _, _ => ⟨rfl⟩
  | k + 1, o, c => by
      rw [rcvStore]
      dsimp only
      split
      · exact ⟨rfl⟩
      · have ih := (rcvStore_sameButRcv f k (o + 1)
          { c with rbuf := Function.update c.rbuf c.rHead (f o), rHead := (c.rHead + 1) % RCV_SZ }).eq
        exact ⟨by rw [ih]⟩

/-- The data block does nothing, or sets the slot and sends an ACK. -/
theorem tcpInData_cases (f : Nat → UInt8) (net : Net n) (h : TcpHdr) (i : Fin n) :
    h.dlen = 0 ∧ tcpInData f net h i = net ∨
      h.dlen ≠ 0 ∧ ∃ c, (net.conns i).SameButRcv c ∧
        (h.seq ≠ (net.conns i).rcvNxt → c = net.conns i) ∧
        tcpInData f net h i = tcpSendSeg (net.set i c) i 0x10 false 0 0 := by
  unfold tcpInData
  split
  next hlen => exact .inl ⟨hlen, rfl⟩
  next hlen =>
    refine .inr ⟨hlen, _, ?_, fun hne => if_neg hne, rfl⟩
    split
    · exact (rcvStore_sameButRcv f h.dlen (h.off + h.toff) (net.conns i)).advance _
    · exact ⟨rfl⟩

theorem tcpInData_sameButRcv (f : Nat → UInt8) (net : Net n) (h : TcpHdr) (i : Fin n) :
    (net.conns i).SameButRcv ((tcpInData f net h i).conns i) := by
  rcases tcpInData_cases f net h i with ⟨-, heq⟩ | ⟨-, c, hc, -, heq⟩
  · rw [heq]
    exact ⟨rfl⟩
  · rw [heq, tcpSendSeg_conns, Net.set_conns_self]
    exact hc

theorem tcpInData_acts (f : Nat → UInt8) (net : Net n) (h : TcpHdr) (i : Fin n)
    (hst : (net.conns i).tstate = .estab) : Acts S T net (tcpInData f net h i) := by
  rcases tcpInData_cases f net h i with ⟨-, heq⟩ | ⟨-, c, hc, -, heq⟩
  · rw [heq]
    exact .refl net
  · rw [heq]
    exact Acts.trans (.single (.store i c hst hc)) (.single (.send i _ _))

theorem tcpInData_estab (f : Nat → UInt8) (net : Net n) (h : TcpHdr) (i : Fin n) :
    ((tcpInData f net h i).conns i).tstate = (net.conns i).tstate := by
  rw [(tcpInData_sameButRcv f net h i).eq]

theorem tcpInFin_acts (net : Net n) (h : TcpHdr) (i : Fin n)
    (hst : (net.conns i).tstate = .estab) : Acts S T net (tcpInFin net h i) := by
  unfold tcpInFin
  split
  · exact Acts.trans (.single (.store i _ hst ⟨rfl⟩))
      (Acts.trans (.single (.send i _ _)) (.single (.reset i)))
  · exact .refl net

theorem tcpInAck_tstate (now : BitVec 32) (h : TcpHdr) (c : Conn) :
    (tcpInAck now h c).tstate = c.tstate := by
  unfold tcpInAck
  split <;> rfl

theorem tcpInSynrcvd_acts (net net' : Net n) (h : TcpHdr) (i : Fin n)
    (hs : tcpInSynrcvd net h i = some net') : Acts S T net net' := by
  unfold tcpInSynrcvd at hs
  dsimp only at hs
  split at hs
  next hst =>
    split at hs
    next hack =>
      cases hs
      have heq : h.ack = (net.conns i).sndNxt := by simp_all
      rw [heq]
      exact .single (.estab i hst)
    next => cases hs
  next =>
    cases hs
    exact .refl net

theorem tcpInConn_acts (now : BitVec 32) (f : Nat → UInt8) (net : Net n) (h : TcpHdr)
    (i : Fin n) : Acts S T net (tcpInConn now f net h i) := by
  unfold tcpInConn
  split
  · exact .refl net
  next net' hs =>
    have hfirst : Acts S T net net' := tcpInSynrcvd_acts net net' h i hs
    split
    · exact hfirst
    next hst =>
      rw [not_not] at hst
      have hack : ((net'.set i (tcpInAck now h (net'.conns i))).conns i).tstate = .estab := by
        rw [Net.set_conns_self, tcpInAck_tstate, hst]
      refine hfirst.trans (Acts.trans (.single (.ack now h i hst)) ?_)
      refine (tcpInData_acts f _ h i hack).trans (tcpInFin_acts _ h i ?_)
      rw [tcpInData_estab, hack]

/-- The slot the SYN of a frame takes, if it takes one. -/
def tcpInTakes (net : Net n) (f : Nat → UInt8) : Option (Fin n) :=
  let h := tcpHdr f
  if h.dport ≠ net.myPort then none
  else if h.tcplen < h.toff then none
  else if hasFlag h.flags 0x04 then none
  else if hasFlag h.flags 0x02 then
    match findConn net h.sport h.srcIp with
    | some _ => none
    | none => allocConn net h.srcIp
  else none

theorem tcpIn_acts (now : BitVec 32) (net : Net n) (f : Nat → UInt8)
    (hS : ∀ i, tcpInTakes net f = some i → S i (net.conns i)) : Acts S T net (tcpIn now net f) := by
  unfold tcpIn
  unfold tcpInTakes at hS
  dsimp only at hS ⊢
  split
  · exact .refl net
  next hport =>
    rw [if_neg hport] at hS
    split
    · exact .refl net
    next hlen =>
      rw [if_neg hlen] at hS
      split
      · unfold tcpInRst
        split
        next i _ => exact .single (.reset i)
        next => exact .refl net
      next hrst =>
        rw [if_neg hrst] at hS
        split
        next hsyn =>
          rw [if_pos hsyn] at hS
          unfold tcpInSyn
          split
          next => exact .refl net
          next hfind =>
            rw [hfind] at hS
            split
            next => exact .single (.refuse _ _)
            next i halloc => exact .single (.syn now _ i (hS i halloc))
        next =>
          split
          next => exact .refl net
          next i _ => exact tcpInConn_acts now f net _ i

/-- `handle_frame` hands the frame to `tcp_in`. -/
def tcpFrame (net : Net n) (f : Nat → UInt8) (len : Nat) : Bool :=
  14 + 20 ≤ len && rd16 f 12 = 0x0800 && f 14 >>> 4 = 4 && slice f 30 4 = net.gIp && f 23 = 6

/-- The slot the SYN of a frame takes when `handle_frame` accepts the frame. -/
def frameTakes (net : Net n) (f : Nat → UInt8) (len : Nat) : Option (Fin n) :=
  if tcpFrame net f len then tcpInTakes net f else none

theorem arpIn_acts (net : Net n) (f : Nat → UInt8) (len : Nat) : Acts S T net (arpIn net f len) := by
  unfold arpIn
  dsimp only
  repeat' split
  all_goals first
    | exact .refl net
    | exact .single (.arp _)

theorem handleFrame_tcp (now : BitVec 32) (net : Net n) (f : Nat → UInt8) (len : Nat)
    (h : tcpFrame net f len = true) : handleFrame now net f len = tcpIn now net f := by
  simp only [tcpFrame, Bool.and_eq_true, decide_eq_true_eq] at h
  obtain ⟨⟨⟨⟨hlen, het⟩, hv⟩, hip⟩, hproto⟩ := h
  have h14 : ¬ len < 14 := by omega
  have h34 : ¬ len < 14 + 20 := by omega
  simp [handleFrame, h14, h34, het, hv, hip, hproto]

/-- Other frames are ARP requests or ignored. -/
theorem handleFrame_other (now : BitVec 32) (net : Net n) (f : Nat → UInt8) (len : Nat)
    (h : tcpFrame net f len = false) :
    handleFrame now net f len = net ∨ handleFrame now net f len = arpIn net f len := by
  unfold handleFrame
  dsimp only
  repeat' split
  all_goals try exact .inl rfl
  · exact .inr rfl
  next h14 _ het hlen hv hip hproto =>
    rw [not_not] at het hv hip
    simp [tcpFrame, het, hv, hip, hproto] at h
    omega

theorem handleFrame_acts (now : BitVec 32) (net : Net n) (f : Nat → UInt8) (len : Nat)
    (hS : ∀ i, frameTakes net f len = some i → S i (net.conns i)) :
    Acts S T net (handleFrame now net f len) := by
  cases htcp : tcpFrame net f len with
  | true =>
      rw [handleFrame_tcp now net f len htcp]
      rw [frameTakes, if_pos htcp] at hS
      exact tcpIn_acts now net f hS
  | false =>
      rcases handleFrame_other now net f len htcp with heq | heq
      · rw [heq]
        exact .refl net
      · rw [heq]
        exact arpIn_acts net f len

/-- The slot that the SYN of a received frame takes in `net_poll`, if any.  The
timers have run when the frame is handled. -/
def netPollTakes (now : BitVec 32) (pkt : Option (List UInt8)) (net : Net n) : Option (Fin n) :=
  match pkt with
  | none => none
  | some stage =>
      let net := netTimers now net
      let work := overlay net.work 0 (stage.take WORK_SZ)
      frameTakes { net with work := work } work (stage.take WORK_SZ).length

theorem netReceive_acts (now : BitVec 32) (pkt : Option (List UInt8)) (net : Net n)
    (hS : ∀ i, netPollTakes now pkt net = some i → S i ((netTimers now net).conns i)) :
    Acts S T (netTimers now net) (netReceive now (netTimers now net) pkt) := by
  unfold netReceive
  cases pkt with
  | none => exact .refl _
  | some stage => exact Acts.trans (.single (.work _)) (handleFrame_acts now _ _ _ hS)

/-- `net_poll` is a sequence of acts; a fresh SYN takes the slot `netPollTakes`. -/
theorem netPoll_acts (hT : T) (now : BitVec 32) (pkt : Option (List UInt8)) (net : Net n)
    (hS : ∀ i, netPollTakes now pkt net = some i → S i ((netTimers now net).conns i)) :
    Acts S T net (netPoll now pkt net) :=
  (netTimers_acts hT now net).trans
    ((netReceive_acts now pkt net hS).trans (netTxFlush_acts now _))

/-! ## The interface -/

theorem netTakeNewSlot_acts (net : Net n) : Acts S T net (netTakeNewSlot net).2 := by
  unfold netTakeNewSlot
  split
  next i _ => exact .single (.taken i)
  next => exact .refl net

theorem netSlotDrop_acts (net : Net n) (i : Fin n) : Acts S T net (netSlotDrop net i) := by
  unfold netSlotDrop
  dsimp only
  split
  · exact Acts.trans (.single (.send i _ _)) (.single (.reset i))
  · exact .single (.reset i)

theorem netTxPutcSlot_acts (net : Net n) (i : Fin n) (b : UInt8) :
    Acts S T net (netTxPutcSlot net i b).2 := by
  unfold netTxPutcSlot
  split
  · exact .refl net
  next hroom => exact .single (.append .unicast i b (by omega) (by simp))

theorem netRxGetc_acts (net : Net n) (i : Fin n) : Acts S T net (netRxGetc net i).2 := by
  unfold netRxGetc
  dsimp only
  split
  · exact .refl net
  next hne => exact .single (.get i hne)

theorem putcCheck_acts : ∀ (is : List (Fin n)) (net : Net n), Acts S T net (putcCheck is net).2
  | [], net => .refl net
  | i :: is, net => by
      rw [putcCheck]
      split
      · split
        · exact Acts.trans (.single (.reset i)) (putcCheck_acts is _)
        · exact .refl net
      · exact putcCheck_acts is net

/-- A slot is admitted with a full ring. -/
def Conn.blocked (c : Conn) : Bool := c.admitted && c.used ≥ SND_SZ - 1

theorem tcpResetListen_not_blocked (c : Conn) : (tcpResetListen c).blocked = false := by
  simp [Conn.blocked, Conn.admitted, tcpResetListen]

/-- A slot the first loop has not blocked on stays unblocked. -/
theorem putcCheck_keeps (j : Fin n) :
    ∀ (is : List (Fin n)) (net : Net n), (net.conns j).blocked = false →
      ((putcCheck is net).2.conns j).blocked = false
  | [], _, hj => hj
  | i :: is, net, hj => by
      rw [putcCheck]
      split
      · split
        · apply putcCheck_keeps j is
          rw [Net.set_conns]
          split
          · exact tcpResetListen_not_blocked _
          · exact hj
        · exact hj
      · exact putcCheck_keeps j is net hj

/-- When the first loop of `net_tx_putc` does not return, no slot it visited is
admitted with a full ring. -/
theorem putcCheck_room (j : Fin n) :
    ∀ (is : List (Fin n)) (net : Net n), j ∈ is → (putcCheck is net).1 = true →
      ((putcCheck is net).2.conns j).blocked = false
  | i :: is, net, hmem, hok => by
      rw [putcCheck] at hok ⊢
      rcases List.mem_cons.mp hmem with heq | hmem'
      · subst heq
        split at hok
        next hb =>
          rw [if_pos hb]
          split at hok
          next hdead =>
            rw [if_pos hdead]
            exact putcCheck_keeps j is _ (by rw [Net.set_conns_self, tcpResetListen_not_blocked])
          next => cases hok
        next hb =>
          rw [if_neg hb]
          exact putcCheck_keeps j is net (Bool.eq_false_iff.mpr hb)
      · split at hok
        next hb =>
          rw [if_pos hb]
          split at hok
          next hdead =>
            rw [if_pos hdead]
            exact putcCheck_room j is _ hmem' hok
          next => cases hok
        next hb =>
          rw [if_neg hb]
          exact putcCheck_room j is net hmem' hok

/-- The second loop of `net_tx_putc`, over slots none of which is blocked. -/
theorem putcAppend_acts (b : UInt8) :
    ∀ (is : List (Fin n)) (net : Net n), is.Nodup → (∀ j ∈ is, (net.conns j).blocked = false) →
      Acts S T net (is.foldl (putcAppend b) net)
  | [], net, _, _ => .refl net
  | i :: is, net, hnd, hroom => by
      obtain ⟨hni, hnd'⟩ := List.nodup_cons.mp hnd
      have hfirst : Acts S T net (putcAppend b net i) := by
        unfold putcAppend
        split
        next hadm =>
          have hi := hroom i List.mem_cons_self
          refine .single (.append .screen i b ?_ fun _ => hadm)
          simp only [Conn.blocked, hadm, Bool.true_and, decide_eq_false_iff_not] at hi
          omega
        next => exact .refl net
      refine hfirst.trans (putcAppend_acts b is _ hnd' fun j hj => ?_)
      have hne : j ≠ i := fun h => hni (h ▸ hj)
      have hsame : (putcAppend b net i).conns j = net.conns j := by
        unfold putcAppend
        split
        · simp [ringAppend, hne]
        · rfl
      rw [hsame]
      exact hroom j (List.mem_cons_of_mem _ hj)

theorem netTxPutc_acts (net : Net n) (b : UInt8) : Acts S T net (netTxPutc net b).2 := by
  unfold netTxPutc
  dsimp only
  split
  next hok =>
    refine (putcCheck_acts _ net).trans (putcAppend_acts b _ _ (List.nodup_finRange n) ?_)
    exact fun j _ => putcCheck_room j _ net (List.mem_finRange j) hok
  next => exact putcCheck_acts _ net

/-- A call of the interface other than an admission is a sequence of acts.  Only
`net_poll` runs the timers and takes slots. -/
theorem NetOp.run_acts {op : NetOp n} {net : Net n} (hop : ∀ i v, op ≠ .slotReady i v)
    (hT : ∀ now pkt, op = .poll now pkt → T)
    (hS : ∀ now pkt, op = .poll now pkt → ∀ i, netPollTakes now pkt net = some i →
      S i ((netTimers now net).conns i)) : Acts S T net (op.run net) := by
  cases op with
  | poll now pkt => exact netPoll_acts (hT now pkt rfl) now pkt net (hS now pkt rfl)
  | takeNew => exact netTakeNewSlot_acts net
  | putc b => exact netTxPutc_acts net b
  | putcSlot i b => exact netTxPutcSlot_acts net i b
  | flush now => exact netTxFlush_acts now net
  | slotReady i v => exact absurd rfl (hop i v)
  | slotDrop i => exact netSlotDrop_acts net i
  | rxGetc i => exact netRxGetc_acts net i

/-! ## One slot -/

/-- What an act can do to the state of slot `i`. -/
inductive Conn.Step (S : Fin n → Conn → Prop) (T : Prop) (i : Fin n) (c : Conn) : Conn → Prop where
  | refl : Conn.Step S T i c c
  | reset : Conn.Step S T i c (tcpResetListen c)
  | syn (now : BitVec 32) (h : TcpHdr) (hs : S i c) :
      Conn.Step S T i c { synConn now h i c with
        sndNxt := (synConn now h i c).sndNxt + 1, rexmitAt := now + REXMIT_TICKS
        sndMax := (synConn now h i c).sndNxt + 1 }
  | estab (hst : c.tstate = .synrcvd) :
      Conn.Step S T i c
        { c with sndUna := c.sndNxt, tstate := .estab, justEstab := true, rexmitCount := 0 }
  | ack (now : BitVec 32) (h : TcpHdr) (hst : c.tstate = .estab) :
      Conn.Step S T i c (tcpInAck now h c)
  | store (c' : Conn) (hst : c.tstate = .estab) (hc : c.SameButRcv c') : Conn.Step S T i c c'
  | get (hne : c.rTail ≠ c.rHead) :
      Conn.Step S T i c { c with rTail := (c.rTail + 1) % RCV_SZ }
  | reap (hT : T) (now : BitVec 32) (hex : c.expired now = true)
      (hmax : c.rexmitCount + 1 > MAX_REXMIT) :
      Conn.Step S T i c (tcpResetListen { c with rexmitCount := c.rexmitCount + 1 })
  | rewind (hT : T) (now : BitVec 32) (hex : c.expired now = true)
      (hmax : ¬ c.rexmitCount + 1 > MAX_REXMIT) :
      Conn.Step S T i c { c with
        rexmitCount := c.rexmitCount + 1, sNxt := c.sUna, sndNxt := c.sndUna
        rexmitAt := now + REXMIT_TICKS }
  | output (now : BitVec 32) (k : Nat) (hst : c.tstate = .estab) (hk : k ≤ c.unsent) :
      Conn.Step S T i c { c with
        rexmitAt := if c.sndUna = c.sndNxt then now + REXMIT_TICKS else c.rexmitAt
        sNxt := (c.sNxt + k) % SND_SZ
        sndNxt := c.sndNxt + BitVec.ofNat 32 k
        sndMax := serialMax c.sndMax (c.sndNxt + BitVec.ofNat 32 k) }
  | append (b : UInt8) (hroom : c.used < SND_SZ - 1) :
      Conn.Step S T i c
        { c with sbuf := Function.update c.sbuf c.sEnd b, sEnd := (c.sEnd + 1) % SND_SZ }
  | taken : Conn.Step S T i c { c with justEstab := false }

/-- The slot of `tcp_timer` afterwards. -/
def Conn.timer (now : BitVec 32) (c : Conn) : Conn :=
  if c.expired now then
    if c.rexmitCount + 1 > MAX_REXMIT then tcpResetListen { c with rexmitCount := c.rexmitCount + 1 }
    else
      { c with
        rexmitCount := c.rexmitCount + 1, sNxt := c.sUna, sndNxt := c.sndUna
        rexmitAt := now + REXMIT_TICKS }
  else c

theorem tcpTimer_conns (now : BitVec 32) (net : Net n) (i j : Fin n) :
    (tcpTimer now net i).conns j = if j = i then (net.conns i).timer now else net.conns j := by
  unfold tcpTimer Conn.timer
  by_cases hji : j = i
  · subst hji
    rw [if_pos rfl]
    dsimp only
    repeat' split
    all_goals simp
  · rw [if_neg hji]
    dsimp only
    repeat' split
    all_goals simp [hji]

/-- A slot that only one step of an act touches. -/
theorem Conn.Step.of_set {net : Net n} {i : Fin n} {c : Conn}
    (h : Conn.Step S T i (net.conns i) c) (j : Fin n) :
    Conn.Step S T j (net.conns j) ((net.set i c).conns j) := by
  rw [Net.set_conns]
  split
  next hji =>
    subst hji
    exact h
  next => exact .refl

/-- Every act is a step of every slot. -/
theorem Act.conn_step {net net' : Net n} (ha : Act S T net net') (j : Fin n) :
    Conn.Step S T j (net.conns j) (net'.conns j) := by
  cases ha with
  | work w => exact .refl
  | refuse ipId s => exact .refl
  | arp frame => exact .refl
  | reset i => exact Conn.Step.reset.of_set j
  | send i flags mss => exact .refl
  | syn now h i hs =>
      by_cases hji : j = i
      · subst hji
        simp only [tcpInSynAccept, Net.set_conns_self]
        exact .syn now h hs
      · simp only [tcpInSynAccept, Net.set_conns_ne _ _ hji, tcpSendSeg_conns, Net.note_conns]
        exact .refl
  | estab i hst => exact @Conn.Step.of_set n S T (net.note _) i _ (.estab hst) j
  | ack now h i hst => exact (Conn.Step.ack now h hst).of_set j
  | store i c hst hc => exact (Conn.Step.store c hst hc).of_set j
  | get i hne => exact (Conn.Step.get hne).of_set j
  | timer now i hT hex =>
      rw [tcpTimer_conns]
      split
      next hji =>
        subst hji
        rw [Conn.timer, if_pos hex]
        split
        next hmax => exact .reap hT now hex hmax
        next hmax => exact .rewind hT now hex hmax
      next => exact .refl
  | output now i k hst hk =>
      exact @Conn.Step.of_set n S T (tcpSendSeg net i _ _ _ _) i _ (.output now k hst hk) j
  | append kind i b hroom hadm =>
      exact @Conn.Step.of_set n S T (net.note _) i _ (.append b hroom) j
  | taken i => exact Conn.Step.taken.of_set j

end Dossh
