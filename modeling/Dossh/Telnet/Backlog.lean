import Dossh.Telnet.Broadcast

/-!
# A client that does not read

One client is admitted, acknowledges nothing and types nothing.  The timers do not fire as long as
the tick counter stands still.  Every tick in which the renderer has something to send then moves
bytes to the ring of the client, until the ring is full.
-/

namespace Dossh

variable {n : Nat}

/-! ## The stack of the server -/

/-- The calls that `telnet.c` makes: it never polls and never takes an admission back. -/
def NetOp.Calm : NetOp n → Prop
  | .poll _ _ => False
  | .slotReady _ v => v = true
  | _ => True

/-- Such calls lead from one state of the stack to another. -/
def Net.Leads (net net' : Net n) : Prop := ∃ ops, (∀ op ∈ ops, op.Calm) ∧ net' = netRun ops net

namespace Net.Leads

variable {net net' net'' : Net n}

theorem refl (net : Net n) : net.Leads net := ⟨[], nofun, rfl⟩

theorem trans (h : net.Leads net') (h' : net'.Leads net'') : net.Leads net'' := by
  obtain ⟨ops, hops, rfl⟩ := h
  obtain ⟨ops', hops', rfl⟩ := h'
  exact ⟨ops ++ ops', List.forall_mem_append.mpr ⟨hops, hops'⟩, (List.foldl_append ..).symm⟩

theorem op (o : NetOp n) (ho : o.Calm) (net : Net n) : net.Leads (o.run net) :=
  ⟨[o], List.forall_mem_singleton.mpr ho, rfl⟩

/-- An invariant of these calls holds after them. -/
theorem preserves {P : Net n → Prop} (hP : ∀ op net, NetOp.Calm op → P net → P (op.run net))
    (h : net.Leads net') (h0 : P net) : P net' := by
  obtain ⟨ops, hops, rfl⟩ := h
  induction ops generalizing net with
  | nil => exact h0
  | cons o ops ih =>
      exact ih (hP o net (hops o List.mem_cons_self) h0) fun o' ho' =>
        hops o' (List.mem_cons_of_mem _ ho')

theorem say (i : Fin n) : ∀ (s : List UInt8) (net : Net n), net.Leads (sayNet net i s)
  | [], net => refl net
  | b :: s, net => (op (.putcSlot i b) trivial net).trans (say i s (netTxPutcSlot net i b).2)

theorem puts (i : Fin n) : ∀ (cs : List Negotiation) (net : Net n), net.Leads (putsNet net i cs)
  | [], net => refl net
  | _ :: cs, net => (say i _ net).trans (puts i cs _)

theorem step {now : BitVec 32} {i : Fin n} {r r' : Render} {au au' : AuState}
    {es : List (CastEvent n)} {answered : Bool}
    (h : WireStep now i net r au net' r' au' es answered) : net.Leads net' := by
  cases h with
  | quiet => exact refl _
  | resized => exact refl _
  | dropped => exact op (.slotDrop i) trivial _
  | admitted => exact op (.slotReady i true) rfl _
  | refused hau s hs => exact say i s _
  | cutOff hau s hs => exact (say i s _).trans (op (.slotDrop i) trivial _)
  | answered v opt hv => exact say i _ _

theorem begin (now : BitVec 32) (st : Server n) (i : Fin n) :
    st.net.Leads (telnetBegin now st i).net := by
  have hgreet : st.net.Leads (greetNet st.net i) := (puts i helloCommands _).trans (say i _ _)
  have hbegin := telnetBegin_wire now st i
  split at hbegin
  · rw [hbegin.1]
    exact hgreet.trans (say i _ _)
  · rw [hbegin.1]
    exact hgreet.trans (op (.slotReady i true) rfl _)

theorem beginLoop (now : BitVec 32) : ∀ (fuel : Nat) (st : Server n),
    st.net.Leads (Dossh.beginLoop now fuel st).net
  | 0, st => refl st.net
  | fuel + 1, st => by
      have htake : st.net.Leads (netTakeNewSlot st.net).2 := op .takeNew trivial st.net
      rw [Dossh.beginLoop]
      split
      next net heq =>
        rw [heq] at htake
        exact htake
      next i net heq =>
        rw [heq] at htake
        exact (htake.trans (begin now { st with net := net } i)).trans (beginLoop now fuel _)

theorem rxLoop (now : BitVec 32) (i : Fin n) : ∀ (fuel : Nat) (st : Server n),
    st.net.Leads (Dossh.rxLoop now i fuel st).net
  | 0, st => refl st.net
  | fuel + 1, st => by
      have hget : st.net.Leads (netRxGetc st.net i).2 := op (.rxGetc i) trivial st.net
      rw [Dossh.rxLoop]
      split
      next net heq =>
        rw [heq] at hget
        exact hget
      next b net heq =>
        rw [heq] at hget
        exact (hget.trans (step (telnetIn_wire now { st with net := net } i b))).trans
          (rxLoop now i fuel _)

theorem rxSlots (now : BitVec 32) : ∀ (is : List (Fin n)) (st : Server n),
    st.net.Leads (is.foldl (fun st i => Dossh.rxLoop now i RCV_SZ st) st).net
  | [], st => refl st.net
  | i :: is, st => (rxLoop now i RCV_SZ st).trans (rxSlots now is _)

theorem pump (s : Screen) : ∀ (budget : Nat) (st : Server n),
    st.net.Leads (txPumpLoop s budget st).net
  | 0, st => refl st.net
  | budget + 1, st => by
      rw [txPumpLoop]
      split
      · exact refl st.net
      next b render _ =>
        have hput : st.net.Leads (netTxPutc st.net b).2 := op (.putc b) trivial st.net
        split
        next net heq =>
          rw [heq] at hput
          exact hput.trans (pump s budget { st with net := net, render := render })
        next net heq =>
          rw [heq] at hput
          exact hput

/-- What follows the poll of a tick. -/
theorem tick (pkt : Option (List UInt8)) (s : Screen) (st : Server n) :
    (netPoll s.ticks pkt st.net).Leads (netTick pkt s st).net := by
  have hrx : (netPoll s.ticks pkt st.net).Leads
      ((List.finRange n).foldl (fun st i => Dossh.rxLoop s.ticks i RCV_SZ st)
        (Dossh.beginLoop s.ticks (n + 1) { st with net := netPoll s.ticks pkt st.net })).net :=
    (beginLoop s.ticks (n + 1) { st with net := netPoll s.ticks pkt st.net }).trans
      (rxSlots s.ticks _ _)
  unfold netTick
  dsimp only
  split
  · exact (hrx.trans (pump s TX_BUDGET _)).trans (op (.flush s.ticks) trivial _)
  · exact hrx

end Net.Leads

/-- An invariant of the polls and of the calls of `telnet.c` holds in every run. -/
theorem telnetRun_preserves {P : Net n → Prop}
    (hpoll : ∀ now pkt net, P net → P (netPoll now pkt net))
    (hop : ∀ op net, NetOp.Calm op → P net → P (op.run net)) :
    ∀ (ticks : List (Option (List UInt8) × Screen)) {st : Server n}, P st.net →
      P (telnetRun ticks st).net
  | [], _, h => h
  | (pkt, s) :: ticks, st, h =>
      telnetRun_preserves hpoll hop ticks
        ((Net.Leads.tick pkt s st).preserves hop (hpoll s.ticks pkt st.net h))

/-- Every state of the stack of the telnet server is one that the calls of `net.c` reach. -/
theorem telnetRun_netReach (ticks : List (Option (List UInt8) × Screen)) {st : Server n}
    (h : NetReach st.net) : NetReach (telnetRun ticks st).net := by
  have hop : ∀ op (net : Net n), NetReach net → NetReach (NetOp.run op net) := by
    rintro op net ⟨mac, ip, port, ops, rfl⟩
    refine ⟨mac, ip, port, ops ++ [op], ?_⟩
    rw [netRun, netRun, List.foldl_append]
    rfl
  exact telnetRun_preserves (fun now pkt net hr => hop (.poll now pkt) net hr)
    (fun op net _ hr => hop op net hr) ticks h

theorem Act.addr {S : Fin n → Conn → Prop} {T : Prop} {net net' : Net n} (h : Act S T net net') :
    net'.gIp = net.gIp ∧ net'.myPort = net.myPort := by
  cases h with
  | timer now i hT hex =>
      unfold tcpTimer
      dsimp only
      repeat' split
      all_goals exact ⟨rfl, rfl⟩
  | _ => exact ⟨rfl, rfl⟩

/-- The address and the port of the server never change. -/
theorem telnetRun_addr (ticks : List (Option (List UInt8) × Screen)) (st : Server n) :
    (telnetRun ticks st).net.gIp = st.net.gIp ∧ (telnetRun ticks st).net.myPort = st.net.myPort := by
  have hop : ∀ (op : NetOp n) (net : Net n),
      (op.run net).gIp = net.gIp ∧ (op.run net).myPort = net.myPort := by
    intro op net
    by_cases hready : ∃ j v, op = .slotReady j v
    · obtain ⟨j, v, rfl⟩ := hready
      cases v with
      | true => exact ⟨rfl, rfl⟩
      | false => exact ⟨rfl, rfl⟩
    · have hacts : Acts (fun _ _ => True) True net (op.run net) :=
        NetOp.run_acts (fun j v heq => hready ⟨j, v, heq⟩) (fun _ _ _ => trivial)
          (fun _ _ _ _ _ => trivial)
      exact Acts.preserves (P := fun net' => net'.gIp = net.gIp ∧ net'.myPort = net.myPort)
        (fun _ _ hp hact => ⟨hact.addr.1.trans hp.1, hact.addr.2.trans hp.2⟩) hacts ⟨rfl, rfl⟩
  refine telnetRun_preserves (P := fun net => net.gIp = st.net.gIp ∧ net.myPort = st.net.myPort)
    (fun now pkt net h => ?_) (fun op net _ h => ?_) ticks ⟨rfl, rfl⟩
  · exact ⟨(hop (.poll now pkt) net).1.trans h.1, (hop (.poll now pkt) net).2.trans h.2⟩
  · exact ⟨(hop op net).1.trans h.1, (hop op net).2.trans h.2⟩

/-! ## A silent client -/

/-- What a silent client leaves as it is in its connection: all but the send ring. -/
abbrev Conn.line (c : Conn) :
    (TState × List UInt8 × Nat × BitVec 32 × BitVec 32) × (Nat × Nat × Nat) ×
      (BitVec 32 × Nat × Bool × Bool × Nat) :=
  ((c.tstate, c.peerIp, c.peerPort, c.sndUna, c.rcvNxt), (c.sUna, c.rHead, c.rTail),
    (c.rexmitAt, c.rexmitCount, c.justEstab, c.ready, c.gen))

/-- The server went on from `st` to `st'`, and only the send ring of the slot and the renderer
changed. -/
structure Silent (i : Fin n) (st st' : Server n) : Prop where
  line : (st'.net.conns i).line = (st.net.conns i).line
  others : ∀ j, j ≠ i → st'.net.conns j = st.net.conns j
  slots : st'.slots = st.slots

namespace Silent

variable {i : Fin n} {st st' st'' : Server n}

theorem refl (i : Fin n) (st : Server n) : Silent i st st := ⟨rfl, fun _ _ => rfl, rfl⟩

theorem trans (h : Silent i st st') (h' : Silent i st' st'') : Silent i st st'' :=
  ⟨h'.line.trans h.line, fun j hj => (h'.others j hj).trans (h.others j hj),
    h'.slots.trans h.slots⟩

end Silent

/-- Slot `i` is the only one in use.  It is admitted, has nothing to say, and its timer was set at
tick `t`. -/
structure Alone (t : BitVec 32) (i : Fin n) (st : Server n) : Prop where
  admitted : (st.net.conns i).admitted = true
  fresh : (st.net.conns i).rexmitCount = 0
  timer : (st.net.conns i).rexmitAt = t + REXMIT_TICKS
  none_new : st.net.NoneNew
  empty : ∀ j, (st.net.conns j).rTail = (st.net.conns j).rHead
  others : ∀ j, j ≠ i → (st.net.conns j).tstate = .listen

namespace Alone

variable {t : BitVec 32} {i : Fin n} {st st' : Server n}

theorem congr (h : Alone t i st) (hline : (st'.net.conns i).line = (st.net.conns i).line)
    (hothers : ∀ j, j ≠ i → st'.net.conns j = st.net.conns j) : Alone t i st' := by
  simp only [Conn.line, Prod.mk.injEq] at hline
  obtain ⟨⟨hst, -, -, -, -⟩, ⟨-, hhead, htail⟩, ⟨hat, hcount, hjust, hready, -⟩⟩ := hline
  refine ⟨?_, hcount.trans h.fresh, hat.trans h.timer, fun j => ?_, fun j => ?_, fun j hj => ?_⟩
  · rw [Conn.admitted, hst, hready]
    exact h.admitted
  · by_cases hj : j = i
    · subst hj
      exact hjust.trans (h.none_new j)
    · rw [hothers j hj]
      exact h.none_new j
  · by_cases hj : j = i
    · subst hj
      rw [htail, hhead]
      exact h.empty j
    · rw [hothers j hj]
      exact h.empty j
  · rw [hothers j hj]
    exact h.others j hj

theorem silent (h : Alone t i st) (hs : Silent i st st') : Alone t i st' := h.congr hs.line hs.others

theorem estab (h : Alone t i st) : (st.net.conns i).tstate = .estab := by
  have hadm := h.admitted
  rw [Conn.admitted, Bool.and_eq_true, decide_eq_true_eq] at hadm
  exact hadm.1

/-- The timer of the slot does not fire at that tick. -/
theorem unexpired (h : Alone t i st) (j : Fin n) : (st.net.conns j).timer t = st.net.conns j := by
  have hexp : (st.net.conns j).expired t = false := by
    by_cases hj : j = i
    · subst hj
      have hago : t - (t + REXMIT_TICKS) = -REXMIT_TICKS := by bv_omega
      rw [Conn.expired, h.timer, hago]
      simp [show ¬ (0 : Int) ≤ (-REXMIT_TICKS).toInt by decide]
    · simp [Conn.expired, h.others j hj]
  rw [Conn.timer, if_neg]
  rw [hexp]
  exact Bool.false_ne_true

end Alone

/-- A slot with a full ring refuses the byte. -/
theorem netTxPutc_blocked {net : Net n} {b : UInt8} (h : (netTxPutc net b).1 = false) :
    ∃ j, (net.conns j).blocked = true := by
  have hcheck : ∀ (is : List (Fin n)) (net : Net n), (putcCheck is net).1 = false →
      ∃ j, (net.conns j).blocked = true := by
    intro is
    induction is with
    | nil => exact fun _ h => absurd h Bool.true_eq_false.mp
    | cons i is ih =>
        intro net h
        rw [putcCheck] at h
        split at h
        next hfull => exact ⟨i, hfull⟩
        next => exact ih net h
  unfold netTxPutc at h
  dsimp only at h
  split at h
  · cases h
  next hno => exact hcheck _ net (Bool.eq_false_iff.mpr hno)

namespace Alone

variable {t : BitVec 32} {i : Fin n} {st : Server n}

theorem flush (h : Alone t i st) :
    Silent i st { st with net := netTxFlush t st.net } ∧
      ((netTxFlush t st.net).conns i).used = (st.net.conns i).used ∧
      ((netTxFlush t st.net).conns i).unsent = 0 := by
  have hfl := netTxFlush_conns t st.net i
  have hat : ((netTxFlush t st.net).conns i).rexmitAt = (st.net.conns i).rexmitAt := by
    rcases netTxFlush_rexmitAt t st.net i with hsame | hset
    · exact hsame
    · rw [hset, h.timer]
  refine ⟨⟨?_, fun j hj => ?_, rfl⟩, hfl.kept.2.2, hfl.unsent h.estab⟩
  · show ((netTxFlush t st.net).conns i).line = _
    simp only [Conn.line, hat]
    rw [hfl.same]
  · refine (netTxFlush_conns t st.net j).other ?_
    rw [h.others j hj]
    exact nofun

/-- A tick without a frame changes nothing before the pump. -/
theorem poll (h : Alone t i st) :
    Silent i st { st with net := netPoll t none st.net } ∧
      ((netPoll t none st.net).conns i).used = (st.net.conns i).used := by
  have htimers : Silent i st { st with net := netTimers t st.net } :=
    ⟨congrArg Conn.line ((netTimers_conns t st.net i).trans (h.unexpired i)),
      fun j _ => (netTimers_conns t st.net j).trans (h.unexpired j), rfl⟩
  obtain ⟨hflush, hused, -⟩ := (h.silent htimers).flush
  refine ⟨htimers.trans hflush, hused.trans ?_⟩
  show ((netTimers t st.net).conns i).used = _
  rw [netTimers_conns, h.unexpired]

/-- A byte of the screen goes to the ring of the slot, or the ring is full. -/
theorem putc (h : Alone t i st) (b : UInt8) :
    Silent i st { st with net := (netTxPutc st.net b).2 } ∧
      if (netTxPutc st.net b).1 then
        ((netTxPutc st.net b).2.conns i).used = (st.net.conns i).used + 1
      else (st.net.conns i).used = SND_SZ - 1 ∧
        ((netTxPutc st.net b).2.conns i).used = (st.net.conns i).used := by
  have hlt : (st.net.conns i).used < SND_SZ := Ring.dist_lt (by decide) _ _
  have hout : ∀ j, j ≠ i → (st.net.conns j).admitted = false := by
    intro j hj
    rw [Conn.admitted, h.others j hj]
    rfl
  have hkept : ∀ {c : Conn}, ¬ (st.net.conns i).Evicted c := by
    intro c hev
    have hdead := hev.2.1
    rw [h.fresh] at hdead
    exact absurd hdead (Nat.lt_irrefl 0)
  cases hput : (netTxPutc st.net b).1 with
  | true =>
      have hother : ∀ j, j ≠ i → (netTxPutc st.net b).2.conns j = st.net.conns j := by
        intro j hj
        cases (netTxPutc_sent hput j).1 with
        | outside hadm hc => exact hc
        | evicted hc =>
            have hadm := hc.1
            rw [Conn.blocked, hout j hj] at hadm
            cases hadm
        | sent hadm hroom hc =>
            rw [hout j hj] at hadm
            cases hadm
      rw [if_pos rfl]
      cases (netTxPutc_sent hput i).1 with
      | outside hadm hc =>
          rw [h.admitted] at hadm
          cases hadm
      | evicted hc => exact absurd hc hkept
      | sent hadm hroom hc =>
          refine ⟨⟨?_, hother, rfl⟩, ?_⟩
          · show ((netTxPutc st.net b).2.conns i).line = _
            rw [hc]
            rfl
          · have hfree : (st.net.conns i).used < SND_SZ - 1 := by
              simp only [Conn.blocked, hadm, Bool.true_and, decide_eq_false_iff_not] at hroom
              omega
            rw [hc]
            exact Ring.dist_succ (Nat.add_lt_of_lt_sub hfree)
  | false =>
      obtain ⟨-, hsame⟩ := netTxPutc_refused hput
      have hother : ∀ j, j ≠ i → (netTxPutc st.net b).2.conns j = st.net.conns j := by
        intro j hj
        rcases hsame j with hc | hc
        · exact hc
        · have hadm := hc.1
          rw [Conn.blocked, hout j hj] at hadm
          cases hadm
      have hown : (netTxPutc st.net b).2.conns i = st.net.conns i :=
        (hsame i).resolve_right hkept
      rw [if_neg Bool.false_ne_true]
      refine ⟨⟨congrArg Conn.line hown, hother, rfl⟩, ?_, congrArg Conn.used hown⟩
      obtain ⟨j, hblocked⟩ := netTxPutc_blocked hput
      by_cases hj : j = i
      · subst hj
        simp only [Conn.blocked, Bool.and_eq_true, decide_eq_true_eq] at hblocked
        omega
      · rw [Conn.blocked, hout j hj] at hblocked
        cases hblocked

/-- The pump moves the bytes of the renderer to the ring of the slot until it is full. -/
theorem pump (s : Screen) : ∀ (budget : Nat) {st : Server n}, Alone t i st →
    Silent i st (txPumpLoop s budget st) ∧
      (st.net.conns i).used ≤ ((txPumpLoop s budget st).net.conns i).used ∧
      ((renderNextByte false s st.render).1.isSome = true → 0 < budget →
        (st.net.conns i).used < ((txPumpLoop s budget st).net.conns i).used ∨
          ((txPumpLoop s budget st).net.conns i).used = SND_SZ - 1)
  | 0, st, _ => ⟨.refl i st, le_rfl, fun _ h => absurd h (Nat.lt_irrefl 0)⟩
  | budget + 1, st, h => by
      rw [txPumpLoop]
      rcases renderNextByte false s st.render with ⟨_ | b, render⟩
      · exact ⟨⟨rfl, fun _ _ => rfl, rfl⟩, le_rfl, fun hnone => by cases hnone⟩
      · obtain ⟨hsilent, hused⟩ := h.putc b
        dsimp only
        rcases hput : netTxPutc st.net b with ⟨_ | _, net⟩
        · rw [hput] at hsilent hused
          obtain ⟨hfull, hsame⟩ := hused
          exact ⟨⟨hsilent.line, hsilent.others, rfl⟩, hsame.ge, fun _ _ => .inr (hsame.trans hfull)⟩
        · rw [hput] at hsilent hused
          have hnext : Silent i st { st with net := net, render := render } :=
            ⟨hsilent.line, hsilent.others, rfl⟩
          obtain ⟨hrest, hmore, -⟩ := pump s budget (h.silent hnext)
          have hone : (net.conns i).used = (st.net.conns i).used + 1 := hused
          have hlt : (st.net.conns i).used < ((txPumpLoop s budget
            { st with net := net, render := render }).net.conns i).used :=
            (Nat.lt_of_succ_le hone.ge).trans_le hmore
          exact ⟨hnext.trans hrest, hlt.le, fun _ _ => .inl hlt⟩

end Alone

/-! ## Quiet ticks -/

theorem beginLoop_none (now : BitVec 32) (fuel : Nat) {st : Server n} (h : st.net.NoneNew) :
    beginLoop now fuel st = st := by
  cases fuel with
  | zero => rfl
  | succ fuel =>
      rw [beginLoop]
      split
      next net heq =>
        obtain ⟨rfl, -⟩ := netTakeNewSlot_none heq
        rfl
      next i net heq =>
        have hnew := (netTakeNewSlot_some heq).1
        rw [h i] at hnew
        cases hnew

theorem rxLoop_empty (now : BitVec 32) {i : Fin n} (fuel : Nat) {st : Server n}
    (h : (st.net.conns i).rTail = (st.net.conns i).rHead) : rxLoop now i fuel st = st := by
  cases fuel with
  | zero => rfl
  | succ fuel =>
      rw [rxLoop, netRxGetc_empty h]

theorem rxSlots_empty (now : BitVec 32) : ∀ (is : List (Fin n)) {st : Server n},
    (∀ j ∈ is, (st.net.conns j).rTail = (st.net.conns j).rHead) →
      is.foldl (fun st i => rxLoop now i RCV_SZ st) st = st
  | [], _, _ => rfl
  | i :: is, st, h => by
      rw [List.foldl_cons, rxLoop_empty now RCV_SZ (h i List.mem_cons_self)]
      exact rxSlots_empty now is fun j hj => h j (List.mem_cons_of_mem _ hj)

namespace Alone

variable {t : BitVec 32} {i : Fin n} {st : Server n}

theorem connected (h : Alone t i st) : netConnected st.net = true := by
  rw [netConnected, List.any_eq_true]
  exact ⟨i, List.mem_finRange i, decide_eq_true h.estab⟩

/-- A tick without a frame. -/
theorem netTick (h : Alone t i st) {s : Screen} (hs : s.ticks = t) :
    Silent i st (Dossh.netTick none s st) ∧
      (st.net.conns i).used ≤ ((Dossh.netTick none s st).net.conns i).used ∧
      ((renderNextByte false s st.render).1.isSome = true →
        (st.net.conns i).used < ((Dossh.netTick none s st).net.conns i).used ∨
          ((Dossh.netTick none s st).net.conns i).used = SND_SZ - 1) ∧
      ((Dossh.netTick none s st).net.conns i).unsent = 0 := by
  obtain ⟨hpoll, hused⟩ := h.poll
  have h₁ := h.silent hpoll
  obtain ⟨hpump, hmore, hgrow⟩ := pump s TX_BUDGET h₁
  obtain ⟨hflush, hused', hunsent⟩ := (h₁.silent hpump).flush
  have htick : Dossh.netTick none s st =
      { txPumpLoop s TX_BUDGET { st with net := netPoll t none st.net } with
        net := netTxFlush t (txPumpLoop s TX_BUDGET { st with net := netPoll t none st.net }).net } := by
    unfold Dossh.netTick
    dsimp only
    rw [hs, beginLoop_none t (n + 1) h₁.none_new, rxSlots_empty t _ fun j _ => h₁.empty j,
      if_pos h₁.connected]
    rfl
  rw [htick]
  refine ⟨(hpoll.trans hpump).trans hflush, ?_, fun hsome => ?_, hunsent⟩
  · rw [hused', ← hused]
    exact hmore
  · rw [hused', ← hused]
    exact hgrow hsome (by decide)

end Alone

/-! ## A full ring -/

theorem frameFill_obuf_ne (s : Screen) (r : Render) : (frameFill s r).obuf ≠ [] := by
  obtain ⟨-, hends⟩ := fillLoop_ends s.base (r.totalCells - r.walkCell) r (by omega)
  unfold frameFill
  dsimp only
  generalize fillLoop s.base (r.totalCells - r.walkCell) r = r' at *
  split
  next =>
    rw [frameEnd_obuf]
    exact eS_ne_nil (.inl (List.cons_ne_nil _ _))
  next hwalk =>
    intro hnil
    have hfull := hends.resolve_left hwalk
    rw [hnil] at hfull
    exact absurd hfull (by decide)

/-- For every state of the renderer there is a screen that makes it send a byte. -/
theorem renderNextByte_somewhere (t : BitVec 32) (r : Render) :
    ∃ s : Screen, s.ticks = t ∧ (renderNextByte false s r).1.isSome = true := by
  have hgeom : ∃ s : Screen, s.ticks = t ∧ s.geomCols * s.geomRows * 2 ≤ SHADOW_BYTES ∧
      s.geomCols ≠ r.shCols := by
    have htwo : tinyScreen.geomCols = 2 ∧ tinyScreen.geomRows = 1 := by decide
    have hthree : ({ tinyScreen with cols := 3 } : Screen).geomCols = 3 ∧
        ({ tinyScreen with cols := 3 } : Screen).geomRows = 1 := by decide
    by_cases hcols : r.shCols = 2
    · refine ⟨{ tinyScreen with cols := 3, ticks := t }, rfl, ?_, ?_⟩
      · show ({ tinyScreen with cols := 3 } : Screen).geomCols * _ * 2 ≤ _
        rw [hthree.1]
        exact (by decide : 3 * 1 * 2 ≤ SHADOW_BYTES)
      · show ({ tinyScreen with cols := 3 } : Screen).geomCols ≠ _
        rw [hthree.1, hcols]
        decide
    · refine ⟨{ tinyScreen with ticks := t }, rfl, ?_, ?_⟩
      · show tinyScreen.geomCols * _ * 2 ≤ _
        rw [htwo.1]
        exact (by decide : 2 * 1 * 2 ≤ SHADOW_BYTES)
      · show tinyScreen.geomCols ≠ _
        rw [htwo.1]
        exact Ne.symm hcols
  obtain ⟨s, hs, hsmall, hne⟩ := hgeom
  refine ⟨s, hs, ?_⟩
  have hobuf : (renderRefill false s r).obuf ≠ [] := by
    by_cases hact : r.frameActive = true
    · rw [renderRefill_active false s hact]
      exact frameFill_obuf_ne s _
    · rw [renderRefill_idle false s hact]
      rcases frameDecide_cases false s { r with obuf := [], oOff := 0 } with
        ⟨b, heq, hup⟩ | ⟨clear, repaint, b, heal, heq, -⟩
      · exact absurd (hup hsmall).2.2.1 hne
      · rw [heq, if_pos (frameStart_active _ _ _ _ _)]
        exact frameFill_obuf_ne s _
  rw [Option.isSome_iff_ne_none]
  intro hnone
  have hnil : r.pending = [] := by
    rcases renderNextByte_pulls false s r with hp | ⟨hnil, -⟩
    · exact hp.2.2 hnone
    · exact hnil
  obtain ⟨hoff, hpushed⟩ := renderRefill_same false s r
  unfold renderNextByte at hnone
  cases hp : r.pushed with
  | some b =>
      rw [hp] at hnone
      cases hnone
  | none =>
      have hdrop : r.obuf.drop r.oOff = [] := by
        rw [Render.pending, hp] at hnil
        exact hnil
      rw [hp] at hnone
      dsimp only at hnone
      rw [if_neg (Nat.not_lt.mpr (List.drop_eq_nil_iff.mp hdrop)), obufNext, hoff,
        if_pos (List.length_pos_iff.mpr hobuf)] at hnone
      simp [hobuf] at hnone

namespace Alone

variable {t : BitVec 32} {i : Fin n}

/-- The ring of a client that does not read fills up. -/
theorem fills : ∀ (k : Nat) {st : Server n}, Alone t i st → SND_SZ - 1 - (st.net.conns i).used = k →
    ∃ ticks, Silent i st (telnetRun ticks st) ∧
      ((telnetRun ticks st).net.conns i).used = SND_SZ - 1 ∧
      ((telnetRun ticks st).net.conns i).unsent = 0 := by
  intro k
  induction k using Nat.strongRecOn with
  | ind k ih =>
      intro st h hk
      obtain ⟨s, hs, hsome⟩ := renderNextByte_somewhere t st.render
      obtain ⟨hsilent, hle, hgrow, hunsent⟩ := h.netTick hs
      have hlt : ((Dossh.netTick none s st).net.conns i).used < SND_SZ := Ring.dist_lt (by decide) _ _
      by_cases hfull : ((Dossh.netTick none s st).net.conns i).used = SND_SZ - 1
      · exact ⟨[(none, s)], hsilent, hfull, hunsent⟩
      · have hmore := (hgrow hsome).resolve_right hfull
        obtain ⟨ticks, hrest, hend⟩ := ih _ (by omega) (h.silent hsilent) rfl
        exact ⟨(none, s) :: ticks, hsilent.trans hrest, hend⟩

end Alone

/-! ## One byte of the client -/

/-- A frame that brings the client's next byte, and an acknowledgement. -/
structure Brings (net : Net n) (i : Fin n) (pkt : List UInt8) (b : UInt8) : Prop where
  intact : Intact pkt
  tcp : tcpFrame net (frameBytes pkt) pkt.length = true
  port : (tcpHdr (frameBytes pkt)).dport = net.myPort
  dlen : (tcpHdr (frameBytes pkt)).dlen = 1
  flags : (tcpHdr (frameBytes pkt)).flags = 0x18
  peer : (tcpHdr (frameBytes pkt)).sport = (net.conns i).peerPort ∧
    (tcpHdr (frameBytes pkt)).srcIp = (net.conns i).peerIp
  seq : (tcpHdr (frameBytes pkt)).seq = (net.conns i).rcvNxt
  byte : frameBytes pkt ((tcpHdr (frameBytes pkt)).off + (tcpHdr (frameBytes pkt)).toff) = b

theorem Intact.tcpFrame_overlay {pkt : List UInt8} (h : Intact pkt) (p : Nat → UInt8) {net net' : Net n}
    (hip : net'.gIp = net.gIp) :
    tcpFrame net' (overlay p 0 (pkt.take WORK_SZ)) (pkt.take WORK_SZ).length =
      tcpFrame net (frameBytes pkt) pkt.length := by
  have hlen : 34 ≤ pkt.length := by
    have hihl := h.ihl
    have htotal := h.total
    have hin := h.inside
    omega
  have hbyte : ∀ k < 34, overlay p 0 (pkt.take WORK_SZ) k = frameBytes pkt k :=
    fun k hk => overlay_frameBytes p h.size (by omega)
  have htype : rd16 (overlay p 0 (pkt.take WORK_SZ)) 12 = rd16 (frameBytes pkt) 12 :=
    rd16_congr fun k hk => hbyte _ (by omega)
  have hdst : slice (overlay p 0 (pkt.take WORK_SZ)) 30 4 = slice (frameBytes pkt) 30 4 :=
    slice_congr fun k hk => hbyte _ (by omega)
  have hsize : (pkt.take WORK_SZ).length = pkt.length := by
    rw [List.take_of_length_le h.size]
  rw [tcpFrame, tcpFrame, htype, hdst, hbyte 14 (by omega), hbyte 23 (by omega), hip, hsize]

/-- The slot of an established connection that takes one byte of a segment. -/
theorem tcpInConn_byte {now : BitVec 32} {f : Nat → UInt8} {net : Net n} {h : TcpHdr} {i : Fin n}
    (hst : (net.conns i).tstate = .estab) (hempty : (net.conns i).rTail = (net.conns i).rHead)
    (hdlen : h.dlen = 1) (hflags : h.flags = 0x18) (hseq : h.seq = (net.conns i).rcvNxt) :
    (tcpInConn now f net h i).conns i =
      { (tcpInAck now h (net.conns i)).keep (f (h.off + h.toff)) with
        rcvNxt := (net.conns i).rcvNxt + 1 } := by
  have hs : tcpInSynrcvd net h i = some net := by simp [tcpInSynrcvd, hst]
  have hfin : hasFlag h.flags 0x01 = false := by rw [hflags]; decide
  have hack : (tcpInAck now h (net.conns i)).rcvNxt = (net.conns i).rcvNxt ∧
      (tcpInAck now h (net.conns i)).rHead = (net.conns i).rHead ∧
      (tcpInAck now h (net.conns i)).rTail = (net.conns i).rTail := by
    unfold tcpInAck
    split <;> exact ⟨rfl, rfl, rfl⟩
  have hroom : ((tcpInAck now h (net.conns i)).rHead + 1) % RCV_SZ ≠
      (tcpInAck now h (net.conns i)).rTail := by
    rw [hack.2.1, hack.2.2, hempty]
    unfold RCV_SZ
    omega
  simp only [tcpInConn, hs, hst, ne_eq, not_true_eq_false, if_false, tcpInFin, hfin,
    Bool.false_eq_true, tcpInData, hdlen, one_ne_zero, Net.set_conns_self, tcpSendSeg_conns,
    hack.1, hseq, if_true]
  rw [rcvStore_keep f 0 _ hroom]
  rfl

namespace Alone

variable {t : BitVec 32} {i : Fin n} {st : Server n} {pkt : List UInt8} {b : UInt8}

theorem findConn (h : Alone t i st) :
    Dossh.findConn st.net (st.net.conns i).peerPort (st.net.conns i).peerIp = some i := by
  have hsome : (Dossh.findConn st.net (st.net.conns i).peerPort
      (st.net.conns i).peerIp).isSome = true := by
    rw [Dossh.findConn, List.find?_isSome]
    exact ⟨i, List.mem_finRange i, by simp [h.estab]⟩
  obtain ⟨j, hj⟩ := Option.isSome_iff_exists.mp hsome
  have hlive := findConn_live hj
  rw [hj]
  by_contra hne
  exact hlive (h.others j fun heq => hne (congrArg some heq))

/-- The poll that receives the byte. -/
theorem receive (h : Alone t i st) (hb : Brings st.net i pkt b) :
    Conn.Flushed
        { (tcpInAck t (tcpHdr (frameBytes pkt)) (st.net.conns i)).keep b with
          rcvNxt := (st.net.conns i).rcvNxt + 1 }
        ((netPoll t (some pkt) st.net).conns i) ∧
      ((netPoll t (some pkt) st.net).conns i).rexmitAt = t + REXMIT_TICKS ∧
      ∀ j, j ≠ i → (netPoll t (some pkt) st.net).conns j = st.net.conns j := by
  have hconns : ∀ j, (netTimers t st.net).conns j = st.net.conns j :=
    fun j => (netTimers_conns t st.net j).trans (h.unexpired j)
  obtain ⟨-, hip, hport⟩ := netTimers_frame t st.net
  generalize hnet : { netTimers t st.net with
    work := overlay (netTimers t st.net).work 0 (pkt.take WORK_SZ) } = net
  have hconns' : net.conns = st.net.conns := by
    rw [← hnet]
    exact funext hconns
  have hport' : net.myPort = st.net.myPort := by rw [← hnet]; exact hport
  have hfind : Dossh.findConn net (tcpHdr (frameBytes pkt)).sport
      (tcpHdr (frameBytes pkt)).srcIp = some i := by
    rw [hb.peer.1, hb.peer.2, ← h.findConn]
    unfold Dossh.findConn
    rw [hconns']
  have hrecv : netReceive t (netTimers t st.net) (some pkt) =
      tcpInConn t (overlay (netTimers t st.net).work 0 (pkt.take WORK_SZ)) net
        (tcpHdr (frameBytes pkt)) i := by
    have hlen : ¬ (tcpHdr (frameBytes pkt)).tcplen < (tcpHdr (frameBytes pkt)).toff := by
      have hdlen := hb.dlen
      unfold TcpHdr.dlen at hdlen
      omega
    have hrst : hasFlag (tcpHdr (frameBytes pkt)).flags 0x04 = false ∧
        hasFlag (tcpHdr (frameBytes pkt)).flags 0x02 = false := by
      rw [hb.flags]
      decide
    unfold netReceive
    dsimp only
    rw [hnet, handleFrame_tcp]
    · unfold tcpIn
      dsimp only
      rw [hb.intact.tcpHdr_overlay, hport', if_neg (not_not.mpr hb.port), if_neg hlen, hfind,
        if_neg (Bool.eq_false_iff.mp hrst.1), if_neg (Bool.eq_false_iff.mp hrst.2)]
    · rw [@Intact.tcpFrame_overlay n pkt hb.intact _ st.net _ (by rw [← hnet]; exact hip)]
      exact hb.tcp
  have hinside : (tcpHdr (frameBytes pkt)).off + (tcpHdr (frameBytes pkt)).toff < pkt.length := by
    have hdlen := hb.dlen
    have htotal := hb.intact.total
    have hin := hb.intact.inside
    have hihl := hb.intact.ihl
    have hw := rd16_lt (frameBytes pkt) 16
    simp only [TcpHdr.dlen, tcpHdr] at hdlen htotal hihl ⊢
    omega
  have hrest : ∀ j, (netPoll t (some pkt) st.net).conns j =
      (netTxFlush t (netReceive t (netTimers t st.net) (some pkt))).conns j := fun _ => rfl
  have hconn : (netReceive t (netTimers t st.net) (some pkt)).conns i =
      { (tcpInAck t (tcpHdr (frameBytes pkt)) (st.net.conns i)).keep b with
        rcvNxt := (st.net.conns i).rcvNxt + 1 } := by
    rw [hrecv, tcpInConn_byte, hconns', overlay_frameBytes _ hb.intact.size hinside, hb.byte]
    · rw [hconns']
      exact h.estab
    · rw [hconns']
      exact h.empty i
    · exact hb.dlen
    · exact hb.flags
    · rw [hconns']
      exact hb.seq
  refine ⟨?_, ?_, fun j hj => ?_⟩
  · have hfl := netTxFlush_conns t (netReceive t (netTimers t st.net) (some pkt)) i
    rw [hconn] at hfl
    exact hfl
  · have hset : (tcpInAck t (tcpHdr (frameBytes pkt)) (st.net.conns i)).rexmitAt =
        t + REXMIT_TICKS := by
      unfold tcpInAck
      split
      · rfl
      · exact h.timer
    rw [hrest]
    rcases netTxFlush_rexmitAt t (netReceive t (netTimers t st.net) (some pkt)) i with hsame | hnew
    · rw [hsame, hconn]
      exact hset
    · exact hnew
  · have hfl := netTxFlush_conns t (netReceive t (netTimers t st.net) (some pkt)) j
    have hsame : (netReceive t (netTimers t st.net) (some pkt)).conns j = st.net.conns j := by
      rw [hrecv, tcpInConn_other _ _ _ _ hj, hconns']
    rw [hrest, hfl.other, hsame]
    rw [hsame, h.others j hj]
    intro hestab
    cases hestab

/-- The byte is read, and the client has nothing more to say. -/
theorem getc (h : Alone t i st) (hb : Brings st.net i pkt b) :
    (netPoll t (some pkt) st.net).NoneNew ∧
      (∀ j, j ≠ i → ((netPoll t (some pkt) st.net).conns j).rTail =
        ((netPoll t (some pkt) st.net).conns j).rHead) ∧
      ∃ net, netRxGetc (netPoll t (some pkt) st.net) i = (some b, net) ∧
        net.log = (netPoll t (some pkt) st.net).log ∧ Alone t i { st with net := net } ∧
        (net.conns i).gen = (st.net.conns i).gen ∧
        (net.conns i).used = (tcpInAck t (tcpHdr (frameBytes pkt)) (st.net.conns i)).used := by
  obtain ⟨hfl, hat, hothers⟩ := h.receive hb
  obtain ⟨hst, hcount, hjust, hready, hgen, hhead, htail⟩ :
      (tcpInAck t (tcpHdr (frameBytes pkt)) (st.net.conns i)).tstate = .estab ∧
      (tcpInAck t (tcpHdr (frameBytes pkt)) (st.net.conns i)).rexmitCount = 0 ∧
      (tcpInAck t (tcpHdr (frameBytes pkt)) (st.net.conns i)).justEstab = false ∧
      (tcpInAck t (tcpHdr (frameBytes pkt)) (st.net.conns i)).ready = (st.net.conns i).ready ∧
      (tcpInAck t (tcpHdr (frameBytes pkt)) (st.net.conns i)).gen = (st.net.conns i).gen ∧
      (tcpInAck t (tcpHdr (frameBytes pkt)) (st.net.conns i)).rHead = (st.net.conns i).rHead ∧
      (tcpInAck t (tcpHdr (frameBytes pkt)) (st.net.conns i)).rTail = (st.net.conns i).rHead := by
    unfold tcpInAck
    split
    · exact ⟨h.estab, rfl, h.none_new i, rfl, rfl, rfl, h.empty i⟩
    · exact ⟨h.estab, h.fresh, h.none_new i, rfl, rfl, rfl, h.empty i⟩
  generalize tcpInAck t (tcpHdr (frameBytes pkt)) (st.net.conns i) = a at *
  generalize netPoll t (some pkt) st.net = net at *
  obtain ⟨kst, kcount, kjust, kready, kgen, khead, ktail, kbuf, kused⟩ :
      (net.conns i).tstate = a.tstate ∧ (net.conns i).rexmitCount = a.rexmitCount ∧
      (net.conns i).justEstab = a.justEstab ∧ (net.conns i).ready = a.ready ∧
      (net.conns i).gen = a.gen ∧ (net.conns i).rHead = (a.rHead + 1) % RCV_SZ ∧
      (net.conns i).rTail = a.rTail ∧ (net.conns i).rbuf = Function.update a.rbuf a.rHead b ∧
      (net.conns i).used = a.used := by
    rw [hfl.same]
    exact ⟨rfl, rfl, rfl, rfl, rfl, rfl, rfl, rfl, rfl⟩
  have hne : (net.conns i).rTail ≠ (net.conns i).rHead := by
    rw [ktail, khead, htail, hhead]
    unfold RCV_SZ
    omega
  have hbyte : (net.conns i).rbuf (net.conns i).rTail = b := by
    rw [kbuf, ktail, htail, ← hhead, Function.update_self]
  have hnone : net.NoneNew := by
    intro j
    by_cases hj : j = i
    · subst hj
      exact kjust.trans hjust
    · rw [hothers j hj]
      exact h.none_new j
  refine ⟨hnone, fun j hj => ?_,
    net.set i { net.conns i with rTail := ((net.conns i).rTail + 1) % RCV_SZ },
    ?_, rfl, ⟨?_, ?_, ?_, fun j => ?_, fun j => ?_, fun j hj => ?_⟩, ?_, ?_⟩
  · rw [hothers j hj]
    exact h.empty j
  · rw [netRxGetc_some hne, hbyte]
  · have hadm := h.admitted
    dsimp only
    rw [Net.set_conns_self]
    simp only [Conn.admitted, kst, hst, kready, hready, h.estab] at hadm ⊢
    exact hadm
  · dsimp only
    rw [Net.set_conns_self]
    exact kcount.trans hcount
  · dsimp only
    rw [Net.set_conns_self]
    exact hat
  · dsimp only
    by_cases hj : j = i
    · subst hj
      rw [Net.set_conns_self]
      exact hnone j
    · rw [Net.set_conns_ne _ _ hj]
      exact hnone j
  · dsimp only
    by_cases hj : j = i
    · subst hj
      rw [Net.set_conns_self]
      show ((net.conns j).rTail + 1) % RCV_SZ = (net.conns j).rHead
      rw [ktail, khead, htail, hhead]
    · rw [Net.set_conns_ne _ _ hj, hothers j hj]
      exact h.empty j
  · dsimp only
    rw [Net.set_conns_ne _ _ hj, hothers j hj]
    exact h.others j hj
  · rw [Net.set_conns_self]
    exact kgen.trans hgen
  · rw [Net.set_conns_self]
    exact kused

end Alone

/-- The loop over the slots when only one of them has a byte. -/
theorem rxSlots_one {now : BitVec 32} {st : Server n} {i : Fin n} {b : UInt8} {net : Net n}
    (hget : netRxGetc st.net i = (some b, net))
    (hothers : ∀ j, j ≠ i → (st.net.conns j).rTail = (st.net.conns j).rHead)
    (hafter : ∀ j, ((telnetIn now { st with net := net } i b).net.conns j).rTail =
      ((telnetIn now { st with net := net } i b).net.conns j).rHead) :
    ∀ is : List (Fin n), i ∈ is →
      is.foldl (fun st i => rxLoop now i RCV_SZ st) st = telnetIn now { st with net := net } i b
  | j :: is, hmem => by
      rw [List.foldl_cons]
      by_cases hj : j = i
      · subst hj
        have hloop : rxLoop now j RCV_SZ st = telnetIn now { st with net := net } j b := by
          show rxLoop now j (511 + 1) st = _
          rw [rxLoop, hget]
          exact rxLoop_empty now 511 (hafter j)
        rw [hloop]
        exact rxSlots_empty now is fun j _ => hafter j
      · rw [rxLoop_empty now RCV_SZ (hothers j hj)]
        exact rxSlots_one hget hothers hafter is ((List.mem_cons.mp hmem).resolve_left (Ne.symm hj))

/-- The tick that receives the byte: the server reads it, then the pump runs. -/
theorem Alone.byteTick {t : BitVec 32} {i : Fin n} {st : Server n} {pkt : List UInt8} {b : UInt8}
    (h : Alone t i st) (hb : Brings st.net i pkt b) {s : Screen} (hs : s.ticks = t) {net : Net n}
    (hget : netRxGetc (netPoll t (some pkt) st.net) i = (some b, net))
    (hafter : Alone t i (telnetIn t { st with net := net } i b)) :
    Dossh.netTick (some pkt) s st =
      { txPumpLoop s TX_BUDGET (telnetIn t { st with net := net } i b) with
        net := netTxFlush t (txPumpLoop s TX_BUDGET (telnetIn t { st with net := net } i b)).net } := by
  obtain ⟨hnone, hothers, -⟩ := h.getc hb
  have hrx : (List.finRange n).foldl (fun st i => rxLoop t i RCV_SZ st)
      { st with net := netPoll t (some pkt) st.net } = telnetIn t { st with net := net } i b :=
    @rxSlots_one n t { st with net := netPoll t (some pkt) st.net } i b net hget hothers
      hafter.empty _ (List.mem_finRange i)
  unfold Dossh.netTick
  dsimp only
  rw [hs, beginLoop_none t (n + 1) hnone, hrx, if_pos hafter.connected]
  rfl

end Dossh
