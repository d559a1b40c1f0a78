import Dossh.Net.Life
import Dossh.Net.Send

/-!
# The broadcast

`net_tx_putc` appends a byte to the rings of all admitted slots or to none, after it dropped the
slots that are full and stalled.  What one call does to a slot is said once.  It follows that a
slot that stays admitted is sent exactly the bytes for which the calls returned 1.

The other calls of the interface leave the queues of the broadcast alone: apart from
`net_tx_putc_slot` and `net_slot_ready` they are mute.
-/

namespace Dossh

variable {n : Nat}

/-! ## Calls that queue nothing -/

/-- Events that neither queue a byte nor admit a connection. -/
def NetEvent.mute : NetEvent n → Bool
  | .admitted _ _ => false
  | .append _ _ _ _ => false
  | _ => true

/-- Nothing was queued and nobody admitted. -/
def Net.Mute (net net' : Net n) : Prop :=
  ∃ es, net'.log = es ++ net.log ∧ ∀ e ∈ es, e.mute = true

namespace Net.Mute

variable {net net' net'' : Net n}

theorem of_log (h : net'.log = net.log) : net.Mute net' := ⟨[], h, by simp⟩

theorem refl (net : Net n) : net.Mute net := .of_log rfl

theorem trans (h : net.Mute net') (h' : net'.Mute net'') : net.Mute net'' := by
  obtain ⟨es, hlog, hes⟩ := h
  obtain ⟨es', hlog', hes'⟩ := h'
  refine ⟨es' ++ es, by rw [hlog', hlog, List.append_assoc], fun e he => ?_⟩
  rcases List.mem_append.mp he with he | he
  · exact hes' e he
  · exact hes e he

theorem note {e : NetEvent n} (he : e.mute = true) : net.Mute (net.note e) :=
  ⟨[e], rfl, by simpa using he⟩

theorem set (h : net.Mute net') (i : Fin n) (c : Conn) : net.Mute (net'.set i c) :=
  h.trans (.of_log rfl)

theorem send (h : net.Mute net') (i : Fin n) (flags : UInt8) (mss : Bool) (doff dlen : Nat) :
    net.Mute (tcpSendSeg net' i flags mss doff dlen) := by
  refine h.trans ⟨[.seg i _ _ _], rfl, ?_⟩
  simp [NetEvent.mute]

theorem foldl {α : Type*} {f : Net n → α → Net n} (hf : ∀ (net : Net n) a, net.Mute (f net a)) :
    ∀ (l : List α) (net : Net n), net.Mute (l.foldl f net)
  | [], net => refl net
  | a :: l, net => (hf net a).trans (foldl hf l (f net a))

end Net.Mute

theorem tcpOutput_mute (now : BitVec 32) (net : Net n) (i : Fin n) :
    net.Mute (tcpOutput now net i) := by
  have hloop : ∀ (fuel unsent : Nat) (net : Net n), net.Mute (tcpOutputLoop now i fuel unsent net) := by
    intro fuel
    induction fuel with
    | zero => exact fun _ net => .refl net
    | succ fuel ih =>
        intro unsent net
        rw [tcpOutputLoop]
        split
        · exact .refl net
        · exact (((Net.Mute.refl net).send i _ _ _ _).set i _).trans (ih _ _)
  unfold tcpOutput
  dsimp only
  split
  · exact .refl net
  · exact hloop _ _ net

theorem netTxFlush_mute (now : BitVec 32) (net : Net n) : net.Mute (netTxFlush now net) :=
  Net.Mute.foldl (tcpOutput_mute now) _ net

theorem netTimers_mute (now : BitVec 32) (net : Net n) : net.Mute (netTimers now net) := by
  refine Net.Mute.foldl (fun net i => ?_) _ net
  have hnote : net.Mute (net.note (.expire i (net.conns i).gen)) := .note rfl
  unfold tcpTimer
  dsimp only
  split
  · split
    · exact hnote.set i _
    · split
      · exact ((hnote.set i _).send i _ _ _ _).set i _
      · exact (hnote.set i _).set i _
  · exact .refl net

theorem tcpInConn_mute (now : BitVec 32) (f : Nat → UInt8) (net : Net n) (h : TcpHdr) (i : Fin n) :
    net.Mute (tcpInConn now f net h i) := by
  unfold tcpInConn
  split
  · exact .refl net
  next net' hs =>
    have hfirst : net.Mute net' := by
      unfold tcpInSynrcvd at hs
      dsimp only at hs
      split at hs
      · split at hs
        · cases hs
          exact (Net.Mute.note rfl).set i _
        · cases hs
      · cases hs
        exact .refl net
    split
    · exact hfirst
    · have hdata : ∀ net : Net n, net.Mute (tcpInData f net h i) := by
        intro net
        unfold tcpInData
        split
        · exact .refl net
        · exact ((Net.Mute.refl net).set i _).send i _ _ _ _
      have hfin : ∀ net : Net n, net.Mute (tcpInFin net h i) := by
        intro net
        unfold tcpInFin
        split
        · exact (((Net.Mute.refl net).set i _).send i _ _ _ _).set i _
        · exact .refl net
      exact ((hfirst.set i _).trans (hdata _)).trans (hfin _)

theorem tcpIn_mute (now : BitVec 32) (net : Net n) (f : Nat → UInt8) :
    net.Mute (tcpIn now net f) := by
  unfold tcpIn
  dsimp only
  split
  · exact .refl net
  split
  · exact .refl net
  split
  · unfold tcpInRst
    split
    · exact (Net.Mute.refl net).set _ _
    · exact .refl net
  split
  · unfold tcpInSyn
    split
    · exact .refl net
    · split
      · exact ⟨[.refuse _ _], rfl, by simp [NetEvent.mute]⟩
      next i _ =>
        exact (((Net.Mute.note rfl).set i _).send i _ _ _ _).set i _
  · split
    · exact .refl net
    · exact tcpInConn_mute now f net _ _

theorem handleFrame_mute (now : BitVec 32) (net : Net n) (f : Nat → UInt8) (len : Nat) :
    net.Mute (handleFrame now net f len) := by
  cases htcp : tcpFrame net f len with
  | true =>
      rw [handleFrame_tcp now net f len htcp]
      exact tcpIn_mute now net f
  | false =>
      rcases handleFrame_other now net f len htcp with heq | heq
      · rw [heq]
        exact .refl net
      · rw [heq]
        unfold arpIn
        dsimp only
        repeat' split
        all_goals first
          | exact .refl net
          | exact .note rfl

theorem netPoll_mute (now : BitVec 32) (pkt : Option (List UInt8)) (net : Net n) :
    net.Mute (netPoll now pkt net) := by
  refine (netTimers_mute now net).trans (Net.Mute.trans ?_ (netTxFlush_mute now _))
  unfold netReceive
  split
  · exact .refl _
  next stage =>
    have hwork : (netTimers now net).Mute { netTimers now net with
        work := overlay (netTimers now net).work 0 (stage.take WORK_SZ) } := .of_log rfl
    exact hwork.trans (handleFrame_mute now _ _ _)

theorem netSlotDrop_mute (net : Net n) (i : Fin n) : net.Mute (netSlotDrop net i) := by
  unfold netSlotDrop
  dsimp only
  split
  · exact ((Net.Mute.refl net).send i _ _ _ _).set i _
  · exact (Net.Mute.refl net).set i _

/-! ## One call -/

/-- What the first loop of `net_tx_putc` does to a slot. -/
def Conn.Evicted (c c' : Conn) : Prop :=
  c.blocked = true ∧ 0 < c.rexmitCount ∧ c' = tcpResetListen c

theorem putcCheck_log : ∀ (is : List (Fin n)) (net : Net n), (putcCheck is net).2.log = net.log
  | [], _ => rfl
  | i :: is, net => by
      rw [putcCheck]
      split
      · split
        · exact putcCheck_log is _
        · rfl
      · exact putcCheck_log is net

theorem putcCheck_conns (j : Fin n) : ∀ (is : List (Fin n)) (net : Net n),
    (putcCheck is net).2.conns j = net.conns j ∨
      (net.conns j).Evicted ((putcCheck is net).2.conns j)
  | [], _ => .inl rfl
  | i :: is, net => by
      rw [putcCheck]
      split
      next hfull =>
        split
        next hdead =>
          have hrest := putcCheck_conns j is (net.set i (tcpResetListen (net.conns i)))
          by_cases hji : j = i
          · subst hji
            rw [Net.set_conns_self] at hrest
            rcases hrest with hsame | ⟨hblocked, -⟩
            · exact .inr ⟨hfull, hdead, hsame⟩
            · rw [tcpResetListen_not_blocked] at hblocked
              cases hblocked
          · rw [Net.set_conns_ne _ _ hji] at hrest
            exact hrest
        next => exact .inl rfl
      next => exact putcCheck_conns j is net

/-- The slot with one byte more in its send ring. -/
def Conn.push (c : Conn) (b : UInt8) : Conn :=
  { c with sbuf := Function.update c.sbuf c.sEnd b, sEnd := (c.sEnd + 1) % SND_SZ }

theorem putcAppend_conns (b : UInt8) (j : Fin n) : ∀ (is : List (Fin n)) (net : Net n), is.Nodup →
    (is.foldl (putcAppend b) net).conns j =
      if j ∈ is ∧ (net.conns j).admitted = true then (net.conns j).push b else net.conns j
  | [], net, _ => by simp
  | i :: is, net, hnd => by
      obtain ⟨hni, hnd'⟩ := List.nodup_cons.mp hnd
      rw [List.foldl_cons, putcAppend_conns b j is _ hnd']
      by_cases hji : j = i
      · subst hji
        rw [if_neg fun h => hni h.1]
        unfold putcAppend
        by_cases hadm : (net.conns j).admitted = true
        · rw [if_pos hadm, if_pos ⟨List.mem_cons_self, hadm⟩, ringAppend, Net.set_conns_self]
          rfl
        · rw [if_neg hadm, if_neg fun h => hadm h.2]
      · have hsame : (putcAppend b net i).conns j = net.conns j := by
          unfold putcAppend
          split
          · rw [ringAppend, Net.set_conns_ne _ _ hji]
            rfl
          · rfl
        rw [hsame]
        simp only [List.mem_cons, hji, false_or]

/-- The bytes that the broadcast appended to the ring of a slot, oldest first. -/
def screenTo (i : Fin n) : List (NetEvent n) → List UInt8
  | [] => []
  | .append .screen j _ b :: past => if j = i then screenTo i past ++ [b] else screenTo i past
  | _ :: past => screenTo i past

theorem screenTo_cons_mute (i : Fin n) {e : NetEvent n} (log : List (NetEvent n))
    (he : e.mute = true) : screenTo i (e :: log) = screenTo i log := by
  cases e with
  | append => cases he
  | _ => rfl

theorem Net.Mute.screenTo {net net' : Net n} (h : net.Mute net') (i : Fin n) :
    Dossh.screenTo i net'.log = Dossh.screenTo i net.log := by
  obtain ⟨es, hlog, hes⟩ := h
  rw [hlog]
  clear hlog
  induction es with
  | nil => rfl
  | cons e es ih =>
      rw [List.cons_append, screenTo_cons_mute i _ (hes e List.mem_cons_self)]
      exact ih fun e' he' => hes e' (List.mem_cons_of_mem _ he')

theorem putcAppend_screenTo (b : UInt8) (j : Fin n) : ∀ (is : List (Fin n)) (net : Net n),
    is.Nodup → screenTo j (is.foldl (putcAppend b) net).log =
      screenTo j net.log ++ if j ∈ is ∧ (net.conns j).admitted = true then [b] else []
  | [], net, _ => by simp
  | i :: is, net, hnd => by
      obtain ⟨hni, hnd'⟩ := List.nodup_cons.mp hnd
      rw [List.foldl_cons, putcAppend_screenTo b j is _ hnd']
      by_cases hji : j = i
      · subst hji
        rw [if_neg fun h => hni h.1, List.append_nil]
        unfold putcAppend
        by_cases hadm : (net.conns j).admitted = true
        · simp [hadm, ringAppend, screenTo]
        · simp [hadm]
      · unfold putcAppend
        by_cases hadm : (net.conns i).admitted = true
        · simp [hadm, hji, Ne.symm hji, ringAppend, screenTo]
        · simp [hadm, hji]

/-- A call that returns 0 queues nothing and only drops dead slots. -/
theorem netTxPutc_refused {net : Net n} {b : UInt8} (h : (netTxPutc net b).1 = false) :
    (netTxPutc net b).2.log = net.log ∧ ∀ j,
      (netTxPutc net b).2.conns j = net.conns j ∨
        (net.conns j).Evicted ((netTxPutc net b).2.conns j) := by
  unfold netTxPutc at h ⊢
  dsimp only at h ⊢
  split at h
  · cases h
  next hno =>
    rw [if_neg hno]
    exact ⟨putcCheck_log _ net, fun j => putcCheck_conns j _ net⟩

/-- What a call that returns 1 does to a slot. -/
inductive Conn.Cast (b : UInt8) (c c' : Conn) : Prop where
  | outside (hadm : c.admitted = false) (hc : c' = c)
  | evicted (hc : c.Evicted c')
  | sent (hadm : c.admitted = true) (hroom : c.blocked = false) (hc : c' = c.push b)

theorem netTxPutc_sent {net : Net n} {b : UInt8} (h : (netTxPutc net b).1 = true) (j : Fin n) :
    (net.conns j).Cast b ((netTxPutc net b).2.conns j) ∧
      screenTo j (netTxPutc net b).2.log = screenTo j net.log ++
        if ((netTxPutc net b).2.conns j).admitted = true then [b] else [] := by
  unfold netTxPutc at h ⊢
  dsimp only at h ⊢
  split at h
  next hok =>
    rw [if_pos hok]
    have hroom := putcCheck_room j _ net (List.mem_finRange j) hok
    have hpush : ∀ c : Conn, (c.push b).admitted = c.admitted := fun _ => rfl
    rw [putcAppend_conns b j _ _ (List.nodup_finRange n),
      putcAppend_screenTo b j _ _ (List.nodup_finRange n), putcCheck_log]
    simp only [List.mem_finRange, true_and]
    rcases putcCheck_conns j (List.finRange n) net with hsame | hevicted
    · rw [hsame] at hroom ⊢
      cases hadm : (net.conns j).admitted with
      | true =>
          simp only [if_true, hpush, hadm]
          exact ⟨.sent hadm hroom rfl, trivial⟩
      | false =>
          simp only [Bool.false_eq_true, if_false, hadm]
          exact ⟨.outside hadm rfl, trivial⟩
    · have hadm : ((putcCheck (List.finRange n) net).2.conns j).admitted = false := by
        rw [hevicted.2.2]
        rfl
      simp only [hadm, Bool.false_eq_true, if_false]
      exact ⟨.evicted hevicted, trivial⟩
  next => cases h

/-! ## The bytes in a ring -/

/-- The bytes of the send ring that were not acknowledged. -/
def Conn.queued (c : Conn) : List UInt8 := Ring.read SND_SZ c.sbuf c.sUna c.used

/-- A byte that finds room goes behind the others and overwrites none. -/
theorem Conn.push_queued {c : Conn} (hend : c.sEnd < SND_SZ) (h : c.used < SND_SZ - 1) (b : UInt8) :
    (c.push b).queued = c.queued ++ [b] := by
  have hused : (c.push b).used = c.used + 1 := Ring.dist_succ (Nat.add_lt_of_lt_sub h)
  have hplace : (c.sUna + c.used) % SND_SZ = c.sEnd := by
    rw [Conn.used, Ring.add_dist_mod (by decide), Nat.mod_eq_of_lt hend]
  show Ring.read SND_SZ (Function.update c.sbuf c.sEnd b) c.sUna (c.push b).used = _
  rw [hused, ← hplace]
  exact Ring.read_push c.sbuf (by omega) b

/-- The write index stays inside the ring. -/
theorem Conn.Step.sEnd_lt {S : Fin n → Conn → Prop} {T : Prop} {i : Fin n} {c c' : Conn}
    (h : Conn.Step S T i c c') (hend : c.sEnd < SND_SZ) : c'.sEnd < SND_SZ := by
  have hpos : 0 < SND_SZ := by decide
  cases h with
  | reset => exact hpos
  | syn => exact hpos
  | reap => exact hpos
  | append => exact Nat.mod_lt _ hpos
  | ack =>
      unfold tcpInAck
      split
      · exact hend
      · exact hend
  | store c' hst hc =>
      rw [hc.eq]
      exact hend
  | _ => exact hend

theorem NetReach.sEnd_lt {net : Net n} (h : NetReach net) (i : Fin n) :
    (net.conns i).sEnd < SND_SZ := by
  refine NetReach.induct (P := fun net => (net.conns i).sEnd < SND_SZ) ?_ ?_ h
  · exact fun _ _ _ => (by decide : 0 < SND_SZ)
  · intro op net hend
    by_cases hop : ∃ j v, op = .slotReady j v
    · obtain ⟨j, v, rfl⟩ := hop
      have hready : ((netSlotReady net j v).conns i).sEnd = (net.conns i).sEnd := by
        unfold netSlotReady
        dsimp only
        rw [Net.set_conns]
        split
        next hij =>
          subst hij
          rfl
        next => split <;> rfl
      show ((netSlotReady net j v).conns i).sEnd < SND_SZ
      rw [hready]
      exact hend
    · have hacts : Acts (fun _ _ => True) True net (op.run net) :=
        NetOp.run_acts (fun j v heq => hop ⟨j, v, heq⟩) (fun _ _ _ => trivial)
          (fun _ _ _ _ _ => trivial)
      exact Acts.preserves (P := fun net => (net.conns i).sEnd < SND_SZ)
        (fun _ _ hend hact => (hact.conn_step i).sEnd_lt hend) hacts hend

/-! ## Runs of the interface -/

/-- The byte that a call broadcast. -/
def NetOp.cast : NetOp n → Net n → Option UInt8
  | .putc b, net => if (netTxPutc net b).1 then some b else none
  | _, _ => none

/-- The bytes that a run broadcast, in their order. -/
def casts : List (NetOp n) → Net n → List UInt8
  | [], _ => []
  | op :: ops, net => (op.cast net).toList ++ casts ops (op.run net)

/-- The slot is admitted before, between and after the calls. -/
def StaysAdmitted (i : Fin n) : List (NetOp n) → Net n → Prop
  | [], net => (net.conns i).admitted = true
  | op :: ops, net => (net.conns i).admitted = true ∧ StaysAdmitted i ops (op.run net)

/-- One call and a slot that is admitted before and after it. -/
theorem NetOp.run_screenTo (op : NetOp n) (net : Net n) {i : Fin n}
    (h : ((op.run net).conns i).admitted = true) :
    screenTo i (op.run net).log = screenTo i net.log ++ (op.cast net).toList := by
  have hquiet : ∀ {net' : Net n}, net.Mute net' →
      screenTo i net'.log = screenTo i net.log ++ (none : Option UInt8).toList := by
    intro net' hmute
    rw [hmute.screenTo, Option.toList_none, List.append_nil]
  cases op with
  | poll now pkt => exact hquiet (netPoll_mute now pkt net)
  | takeNew =>
      have hmute : net.Mute (netTakeNewSlot net).2 := by
        unfold netTakeNewSlot
        split
        · exact .of_log rfl
        · exact .refl net
      exact hquiet hmute
  | putc b =>
      show screenTo i (netTxPutc net b).2.log = _
      replace h : ((netTxPutc net b).2.conns i).admitted = true := h
      cases hput : (netTxPutc net b).1 with
      | true =>
          rw [(netTxPutc_sent hput i).2, if_pos h]
          simp [NetOp.cast, hput]
      | false =>
          rw [(netTxPutc_refused hput).1]
          simp [NetOp.cast, hput]
  | putcSlot j b =>
      simp only [NetOp.run, NetOp.cast, Option.toList_none, List.append_nil]
      unfold netTxPutcSlot
      split
      · rfl
      · rfl
  | flush now => exact hquiet (netTxFlush_mute now net)
  | slotReady j v =>
      simp only [NetOp.run, NetOp.cast, Option.toList_none, List.append_nil]
      unfold netSlotReady
      cases v with
      | true => rfl
      | false => rfl
  | slotDrop j => exact hquiet (netSlotDrop_mute net j)
  | rxGetc j =>
      have hmute : net.Mute (netRxGetc net j).2 := by
        unfold netRxGetc
        dsimp only
        split
        · exact .refl net
        · exact .of_log rfl
      exact hquiet hmute

theorem StaysAdmitted.head {i : Fin n} : ∀ {ops : List (NetOp n)} {net : Net n},
    StaysAdmitted i ops net → (net.conns i).admitted = true
  | [], _, h => h
  | _ :: _, _, h => h.1

/-- A slot that stays admitted is sent the broadcast. -/
theorem StaysAdmitted.screenTo {i : Fin n} : ∀ {ops : List (NetOp n)} {net : Net n},
    StaysAdmitted i ops net →
      Dossh.screenTo i (netRun ops net).log = Dossh.screenTo i net.log ++ casts ops net
  | [], _, _ => (List.append_nil _).symm
  | op :: ops, net, h => by
      have hrest := h.2.screenTo
      rw [op.run_screenTo net h.2.head, List.append_assoc] at hrest
      exact hrest

/-- What every slot and its ring owe the broadcast in the state `net`. -/
structure Net.Agrees (net : Net n) : Prop where
  sent : ∀ (ops : List (NetOp n)) (i : Fin n), StaysAdmitted i ops net →
    screenTo i (netRun ops net).log = screenTo i net.log ++ casts ops net
  taken : ∀ b, (netTxPutc net b).1 = true → ∀ i,
    ((net.conns i).admitted = false ∧ (netTxPutc net b).2.conns i = net.conns i) ∨
      (net.conns i).Evicted ((netTxPutc net b).2.conns i) ∨
      ((net.conns i).admitted = true ∧
        ((netTxPutc net b).2.conns i).queued = (net.conns i).queued ++ [b])
  refused : ∀ b, (netTxPutc net b).1 = false → (netTxPutc net b).2.log = net.log ∧
    ∀ i, (netTxPutc net b).2.conns i = net.conns i ∨
      (net.conns i).Evicted ((netTxPutc net b).2.conns i)
  bounded : ∀ i, (net.conns i).queued.length ≤ SND_SZ - 1

/-- **The broadcast of the stack.**  In every state that calls of the interface lead to, a slot that
stays admitted is sent the bytes for which `net_tx_putc` returns 1 and no others, each behind the
bytes that are still unread.  A call that returns 0 queues nothing and drops dead slots only. -/
theorem net_broadcast_agrees {net : Net n} (h : NetReach net) : net.Agrees where
  sent _ _ hstays := hstays.screenTo
  taken b hput i := by
    cases (netTxPutc_sent hput i).1 with
    | outside hadm hc => exact .inl ⟨hadm, hc⟩
    | evicted hc => exact .inr (.inl hc)
    | sent hadm hroom hc =>
        have hfree : (net.conns i).used < SND_SZ - 1 := by
          rw [Conn.blocked, hadm, Bool.true_and, decide_eq_false_iff_not] at hroom
          exact Nat.lt_of_not_le hroom
        rw [hc]
        exact .inr (.inr ⟨hadm, Conn.push_queued (h.sEnd_lt i) hfree b⟩)
  refused _ hput := netTxPutc_refused hput
  bounded i := by
    have hused : (net.conns i).used < SND_SZ := Ring.dist_lt (by decide) _ _
    rw [Conn.queued, Ring.length_read]
    exact Nat.le_sub_one_of_lt hused

/-- A slot with an admitted client, and two calls that reach it. -/
def admittedRun : Net 2 :=
  netRun [.poll 0 (some sampleSyn), .poll 1 (some (sampleData 0 [])),
    .slotReady ⟨0, Nat.zero_lt_two⟩ true] sampleOpen

theorem net_broadcast_agrees_client :
    admittedRun.Agrees ∧ StaysAdmitted 0 [.putc 27, .putc 91] admittedRun ∧
      casts [.putc 27, .putc 91] admittedRun = [27, 91] := by
  have hreach : NetReach admittedRun := ⟨_, _, _, _, rfl⟩
  refine ⟨net_broadcast_agrees hreach, ?_, by decide +kernel⟩
  simp only [StaysAdmitted]
  decide +kernel

end Dossh
