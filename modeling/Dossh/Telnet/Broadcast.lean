import Dossh.Telnet.Stream

/-!
# The shared screen of the telnet server

The bytes of `render.c` go to all admitted slots.  The history of the broadcast is kept beside the
run: admissions, resets of the renderer and the bytes that were taken.  Two things hold of it.  The
stream of an admitted slot, without its commands, is the broadcast since its admission, in every
run in which no reply is torn.  And after a reset the broadcast starts a full frame, which goes on
to its end unless the next reset comes first.
-/

namespace Dossh

variable {n : Nat}

/-! ## The history -/

/-- The broadcast since a connection was admitted. -/
def castsSince (i : Fin n) (gen : Nat) : List (CastEvent n) → List UInt8
  | [] => []
  | .ready j g :: past => if j = i ∧ g = gen then [] else castsSince i gen past
  | .reset :: past => castsSince i gen past
  | .cast b :: past => castsSince i gen past ++ [b]

/-- The whole broadcast. -/
def castsOf : List (CastEvent n) → List UInt8
  | [] => []
  | .cast b :: past => castsOf past ++ [b]
  | _ :: past => castsOf past

/-- The broadcast since the last reset of the renderer. -/
def castsReset : List (CastEvent n) → List UInt8
  | [] => []
  | .ready _ _ :: past => castsReset past
  | .reset :: _ => []
  | .cast b :: past => castsReset past ++ [b]

/-- What `telnet_begin` does to the broadcast. -/
def beginEvents (st : Server n) (i : Fin n) : List (CastEvent n) :=
  if st.password.headD 0 ≠ 0 then [] else [.reset, .ready i (st.net.conns i).gen]

/-- The history of `beginLoop`, newest event first. -/
def beginCasts (now : BitVec 32) : Nat → Server n → List (CastEvent n) → List (CastEvent n)
  | 0, _, h => h
  | fuel + 1, st, h =>
      match netTakeNewSlot st.net with
      | (none, _) => h
      | (some i, net) =>
          beginCasts now fuel (telnetBegin now { st with net := net } i) (beginEvents st i ++ h)

/-- The history of `rxLoop`. -/
def rxCasts (now : BitVec 32) (i : Fin n) :
    Nat → Server n → List (CastEvent n) → List (CastEvent n)
  | 0, _, h => h
  | fuel + 1, st, h =>
      match netRxGetc st.net i with
      | (none, _) => h
      | (some b, net) =>
          rxCasts now i fuel (telnetIn now { st with net := net } i b)
            (inEvents { st with net := net } i b ++ h)

/-- The history of the loop over the slots. -/
def slotsCasts (now : BitVec 32) :
    List (Fin n) → Server n → List (CastEvent n) → List (CastEvent n)
  | [], _, h => h
  | i :: is, st, h => slotsCasts now is (rxLoop now i RCV_SZ st) (rxCasts now i RCV_SZ st h)

/-- The history of `txPumpLoop`. -/
def pumpCasts (s : Screen) : Nat → Server n → List (CastEvent n) → List (CastEvent n)
  | 0, _, h => h
  | budget + 1, st, h =>
      match renderNextByte false s st.render with
      | (none, _) => h
      | (some b, render) =>
          match netTxPutc st.net b with
          | (true, net) => pumpCasts s budget { st with net := net, render := render } (.cast b :: h)
          | (false, _) => h

/-- The history of `net_tick`. -/
def tickCasts (pkt : Option (List UInt8)) (s : Screen) (st : Server n)
    (h : List (CastEvent n)) : List (CastEvent n) :=
  let now := s.ticks
  let st := { st with net := netPoll now pkt st.net }
  let h := beginCasts now (n + 1) st h
  let st := beginLoop now (n + 1) st
  let h := slotsCasts now (List.finRange n) st h
  let st := (List.finRange n).foldl (fun st i => rxLoop now i RCV_SZ st) st
  if netConnected st.net then pumpCasts s TX_BUDGET st h else h

/-- The history of a run. -/
def telnetCasts : List (Option (List UInt8) × Screen) → Server n → List (CastEvent n) →
    List (CastEvent n)
  | [], _, h => h
  | (pkt, s) :: ticks, st, h => telnetCasts ticks (netTick pkt s st) (tickCasts pkt s st h)

/-! ## Replies that are not torn -/

/-- The stack after the replies. -/
def putsNet (net : Net n) (i : Fin n) : List Negotiation → Net n
  | [] => net
  | c :: cs => putsNet (sayNet net i [IAC, c.1, c.2]) i cs

/-- Each of the replies finds no room or room for three bytes. -/
def putsWhole (net : Net n) (i : Fin n) : List Negotiation → Bool
  | [] => true
  | c :: cs => PutsWhole net i && putsWhole (sayNet net i [IAC, c.1, c.2]) i cs

/-- The replies of `beginLoop`. -/
def beginWhole (now : BitVec 32) : Nat → Server n → Bool
  | 0, _ => true
  | fuel + 1, st =>
      match netTakeNewSlot st.net with
      | (none, _) => true
      | (some i, net) =>
          putsWhole net i helloCommands &&
            beginWhole now fuel (telnetBegin now { st with net := net } i)

/-- The replies of `rxLoop`. -/
def rxWhole (now : BitVec 32) (i : Fin n) : Nat → Server n → Bool
  | 0, _ => true
  | fuel + 1, st =>
      match netRxGetc st.net i with
      | (none, _) => true
      | (some b, net) =>
          (!answers { st with net := net } i b || PutsWhole net i) &&
            rxWhole now i fuel (telnetIn now { st with net := net } i b)

/-- The replies of the loop over the slots. -/
def slotsWhole (now : BitVec 32) : List (Fin n) → Server n → Bool
  | [], _ => true
  | i :: is, st => rxWhole now i RCV_SZ st && slotsWhole now is (rxLoop now i RCV_SZ st)

/-- The replies of `net_tick`. -/
def tickWhole (pkt : Option (List UInt8)) (s : Screen) (st : Server n) : Bool :=
  let polled := { st with net := netPoll s.ticks pkt st.net }
  beginWhole s.ticks (n + 1) polled &&
    slotsWhole s.ticks (List.finRange n) (beginLoop s.ticks (n + 1) polled)

/-- Every `put3` of the run finds no room or room for three bytes. -/
def telnetWhole : List (Option (List UInt8) × Screen) → Server n → Bool
  | [], _ => true
  | (pkt, s) :: ticks, st => tickWhole pkt s st && telnetWhole ticks (netTick pkt s st)

/-! ## One slot -/

/-- The history says nothing new about the admission of the slot. -/
theorem castsSince_append {i : Fin n} (g : Nat) {h : List (CastEvent n)} :
    ∀ {es : List (CastEvent n)}, (∀ e ∈ es, e = .reset ∨ ∃ j g', e = .ready j g' ∧ j ≠ i) →
      castsSince i g (es ++ h) = castsSince i g h
  | [], _ => rfl
  | e :: es, hes => by
      have ih : castsSince i g (es ++ h) = castsSince i g h :=
        castsSince_append g fun e' he' => hes e' (List.mem_cons_of_mem _ he')
      rcases hes e List.mem_cons_self with rfl | ⟨j, g', rfl, hj⟩
      · exact ih
      · rw [List.cons_append, castsSince, if_neg fun h => hj h.1]
        exact ih

theorem netSlotReady_other (net : Net n) {i j : Fin n} (hj : j ≠ i) :
    (netSlotReady net i true).conns j = net.conns j := by
  rw [netSlotReady, Net.set_conns_ne _ _ hj]
  rfl

namespace WireStep

variable {now : BitVec 32} {i : Fin n} {net net' : Net n} {r r' : Render} {au au' : AuState}
  {es : List (CastEvent n)} {answered : Bool}

theorem events (hstep : WireStep now i net r au net' r' au' es answered) :
    ∀ e ∈ es, e = .reset ∨ ∃ g, e = .ready i g := by
  cases hstep with
  | resized => simp
  | admitted => simp
  | _ => simp

/-- Other slots are left alone. -/
theorem others (hstep : WireStep now i net r au net' r' au' es answered) {j : Fin n} (hj : j ≠ i) :
    net'.conns j = net.conns j ∧ LogSame j net.log net'.log := by
  have hsay : ∀ s, (sayNet net i s).conns j = net.conns j ∧
      LogSame j net.log (sayNet net i s).log := by
    intro s
    obtain ⟨bs, -, hq⟩ := sayNet_queues i s net
    exact ⟨hq.others j hj, hq.logSame hj⟩
  have hdrop : ∀ net : Net n, (netSlotDrop net i).conns j = net.conns j ∧
      LogSame j net.log (netSlotDrop net i).log := by
    intro net
    refine ⟨?_, (netSlotDrop_mute net i).logSame j⟩
    unfold netSlotDrop
    dsimp only
    rw [Net.set_conns_ne _ _ hj]
    split <;> rfl
  cases hstep with
  | quiet => exact ⟨rfl, .refl j _⟩
  | resized => exact ⟨rfl, .refl j _⟩
  | dropped => exact hdrop net
  | admitted hau =>
      refine ⟨netSlotReady_other net hj, .cons ?_ _⟩
      · intro g hg
        cases hg
        exact absurd rfl hj
  | refused hau s hs => exact hsay s
  | cutOff hau s hs =>
      exact ⟨(hdrop _).1.trans (hsay s).1, (hsay s).2.trans (hdrop _).2⟩
  | answered v opt hv => exact hsay _

/-- The slot itself. -/
theorem wired {h : List (CastEvent n)} (hstep : WireStep now i net r au net' r' au' es answered)
    (hw : Wired i (net.conns i) au net.log fun g => castsSince i g h)
    (hst : (net.conns i).tstate = .estab) (hold : (net.conns i).justEstab = false)
    (hwhole : answered = true → PutsWhole net i) :
    Wired i (net'.conns i) au' net'.log fun g => castsSince i g (es ++ h) := by
  have hnot : au = .pw → (net.conns i).tstate = .estab →
      NetEvent.admitted i (net.conns i).gen ∉ net.log := by
    rintro rfl hestab hadm
    cases (hw.screen hestab hadm).2.1
  cases hstep with
  | quiet => exact hw
  | resized => exact hw
  | dropped => exact hw.drop
  | admitted hau =>
      refine hw.admission ?_ hold ?_
      · rw [hst]
        exact nofun
      · simp [castsSince]
  | refused hau s hs => exact hw.say hs (hnot hau)
  | cutOff hau s hs => exact (hw.say hs (hnot hau)).drop
  | answered v opt hv => exact hw.put3 (hwhole rfl) hv opt

end WireStep

/-! ## A new connection -/

theorem putsNet_queues (i : Fin n) : ∀ (cs : List Negotiation) (net : Net n),
    ∃ bs, Net.Queues i bs net (putsNet net i cs)
  | [], net => ⟨[], .refl i net⟩
  | c :: cs, net => by
      obtain ⟨bs, hq⟩ := putsNet_queues i cs (sayNet net i [IAC, c.1, c.2])
      exact ⟨_, (put3_queues net i IAC c.1 c.2).trans hq⟩

theorem Wired.puts {i : Fin n} {au : AuState} {w : Nat → List UInt8} : ∀ (cs : List Negotiation)
    {net : Net n}, (∀ c ∈ cs, WILL ≤ c.1 ∧ c.1 ≤ DONT) → putsWhole net i cs = true →
      Wired i (net.conns i) au net.log w →
      Wired i ((putsNet net i cs).conns i) au (putsNet net i cs).log w
  | [], _, _, _, h => h
  | c :: cs, net, hcs, hwhole, h => by
      rw [putsWhole, Bool.and_eq_true, decide_eq_true_eq] at hwhole
      exact Wired.puts cs (fun c' hc' => hcs c' (List.mem_cons_of_mem _ hc')) hwhole.2
        (h.put3 hwhole.1 (hcs c List.mem_cons_self) c.2)

/-- The connection on the slot was not admitted. -/
def Net.Unadmitted (net : Net n) (i : Fin n) : Prop :=
  NetEvent.admitted i (net.conns i).gen ∉ net.log

theorem Net.Queues.unadmitted {i : Fin n} {bs : List UInt8} {net net' : Net n}
    (hq : Net.Queues i bs net net') (h : net.Unadmitted i) : net'.Unadmitted i := by
  have hgen : (net'.conns i).gen = (net.conns i).gen := congrArg (fun l => l.2.1) hq.life
  unfold Net.Unadmitted
  rw [hgen, (streamOf_queues hq _).2.2]
  exact h

/-- The stack after `telnet_hello` and the request for a window size. -/
def greetNet (net : Net n) (i : Fin n) : Net n :=
  sayNet (putsNet net i helloCommands) i (0x1B :: ascii "[8;25;80t")

theorem telnetHello_net (st : Server n) (i : Fin n) :
    (telnetHello st i).net = putsNet st.net i helloCommands := by
  have hfold : ∀ (cs : List Negotiation) (st : Server n),
      (cs.foldl (fun st c => put3 st i IAC c.1 c.2) st).net = putsNet st.net i cs := by
    intro cs
    induction cs with
    | nil => exact fun _ => rfl
    | cons c cs ih =>
        intro st
        have hnet : (put3 st i IAC c.1 c.2).net = sayNet st.net i [IAC, c.1, c.2] :=
          auSay_net i _ st
        rw [List.foldl_cons, ih, hnet]
        rfl
  have hset : ∀ (st : Server n) s, (st.setSlot i s).net = st.net := fun _ _ => rfl
  rw [telnetHello_commands, hset, hfold]

theorem telnetHello_render (st : Server n) (i : Fin n) :
    (telnetHello st i).render = st.render := by
  have hput : ∀ (st : Server n) a b c, (put3 st i a b c).render = st.render :=
    fun st a b c => auSay_render i _ st
  simp only [telnetHello, Server.setSlot, hput]

theorem telnetBegin_wire (now : BitVec 32) (st : Server n) (i : Fin n) :
    if st.password.headD 0 ≠ 0 then
      (telnetBegin now st i).net = sayNet (greetNet st.net i) i (ascii "\r\nPassword: ") ∧
        (telnetBegin now st i).render = st.render ∧
        ((telnetBegin now st i).slots i).auState = .pw
    else
      (telnetBegin now st i).net = netSlotReady (greetNet st.net i) i true ∧
        (telnetBegin now st i).render = renderReset now st.render ∧
        ((telnetBegin now st i).slots i).auState = .ok := by
  have hsetup : Server.At i st
      (auSay (telnetHello (telnetReset st i) i) i (0x1B :: ascii "[8;25;80t")) :=
    (Server.At.setSlot i st _).trans ((Server.At.hello i _).trans (Server.At.auSay i _ _))
  have hnet : (auSay (telnetHello (telnetReset st i) i) i (0x1B :: ascii "[8;25;80t")).net =
      greetNet st.net i := by
    rw [auSay_net, telnetHello_net]
    rfl
  have hrender : (auSay (telnetHello (telnetReset st i) i) i (0x1B :: ascii "[8;25;80t")).render =
      st.render := by
    rw [auSay_render, telnetHello_render]
    rfl
  unfold telnetBegin
  dsimp only
  rw [hsetup.password]
  generalize auSay (telnetHello (telnetReset st i) i) i (0x1B :: ascii "[8;25;80t") = st₁ at *
  split
  · rw [auSay_net, auSay_render, auSay_slots, Server.setSlot_slots_self]
    refine ⟨?_, hrender, rfl⟩
    rw [← hnet]
    rfl
  · rw [Server.setSlot_slots_self, hnet, hrender]
    exact ⟨rfl, rfl, rfl⟩

theorem greetNet_queues (net : Net n) (i : Fin n) :
    ∃ bs, Net.Queues i bs net (greetNet net i) := by
  unfold greetNet
  generalize 0x1B :: ascii "[8;25;80t" = s
  obtain ⟨bs, hq⟩ := putsNet_queues i helloCommands net
  obtain ⟨bs', -, hq'⟩ := sayNet_queues i s (putsNet net i helloCommands)
  exact ⟨_, hq.trans hq'⟩

/-- A connection that was not admitted is greeted. -/
theorem Wired.greet {i : Fin n} {au : AuState} {w : Nat → List UInt8} {net : Net n}
    (h : Wired i (net.conns i) au net.log w) (hnot : net.Unadmitted i)
    (hwhole : putsWhole net i helloCommands = true) :
    Wired i ((greetNet net i).conns i) au (greetNet net i).log w := by
  have hputs := h.puts helloCommands (forall_mem_of_all (by decide)) hwhole
  have hnot' : (putsNet net i helloCommands).Unadmitted i := by
    obtain ⟨bs, hq⟩ := putsNet_queues i helloCommands net
    exact hq.unadmitted hnot
  have htext : IAC ∉ 0x1B :: ascii "[8;25;80t" := by decide
  unfold greetNet
  generalize 0x1B :: ascii "[8;25;80t" = s at *
  exact hputs.say htext fun _ => hnot'

/-- `telnet_begin` for a connection that is past its handshake. -/
theorem telnetBegin_wired {now : BitVec 32} {st : Server n} {i : Fin n} {h : List (CastEvent n)}
    {au : AuState}
    (hw : Wired i (st.net.conns i) au st.net.log fun g => castsSince i g h)
    (hst : (st.net.conns i).tstate ≠ .synrcvd) (hold : (st.net.conns i).justEstab = false)
    (hnot : st.net.Unadmitted i) (hwhole : putsWhole st.net i helloCommands = true) :
    Wired i ((telnetBegin now st i).net.conns i) ((telnetBegin now st i).slots i).auState
      (telnetBegin now st i).net.log fun g => castsSince i g (beginEvents st i ++ h) := by
  have hgreet := hw.greet hnot hwhole
  obtain ⟨greeting, hq⟩ := greetNet_queues st.net i
  have hnot' := hq.unadmitted hnot
  have hlife := hq.life
  simp only [Conn.life, Prod.mk.injEq] at hlife
  obtain ⟨hstate, hgen, hjust, -⟩ := hlife
  have hbegin := telnetBegin_wire now st i
  unfold beginEvents
  split at hbegin
  next hpw =>
    rw [hbegin.1, hbegin.2.2, if_pos hpw]
    have htext : IAC ∉ ascii "\r\nPassword: " := by decide
    generalize ascii "\r\nPassword: " = s at *
    have hsay := hgreet.say htext fun _ => hnot'
    refine ⟨hsay.old, hsay.fresh, hsay.complete, fun hestab hadm => ?_, hsay.ring⟩
    obtain ⟨bs, -, hq'⟩ := sayNet_queues i s (greetNet st.net i)
    exact absurd hadm (hq'.unadmitted hnot')
  next hpw =>
    rw [hbegin.1, hbegin.2.2, if_neg hpw]
    refine hgreet.admission ?_ ?_ ?_
    · rw [hstate]
      exact hst
    · rw [hjust]
      exact hold
    · rw [hgen]
      simp [castsSince]

theorem telnetBegin_others (now : BitVec 32) (st : Server n) {i j : Fin n} (hj : j ≠ i) :
    (telnetBegin now st i).net.conns j = st.net.conns j ∧
      LogSame j st.net.log (telnetBegin now st i).net.log := by
  obtain ⟨greeting, hq⟩ := greetNet_queues st.net i
  have hbegin := telnetBegin_wire now st i
  split at hbegin
  · rw [hbegin.1]
    generalize ascii "\r\nPassword: " = s
    obtain ⟨bs, -, hq'⟩ := sayNet_queues i s (greetNet st.net i)
    exact ⟨(hq'.others j hj).trans (hq.others j hj), (hq.logSame hj).trans (hq'.logSame hj)⟩
  · rw [hbegin.1]
    refine ⟨?_, (hq.logSame hj).trans (.cons ?_ _)⟩
    · rw [netSlotReady_other _ hj]
      exact hq.others j hj
    · intro g hg
      cases hg
      exact absurd rfl hj

/-! ## A broadcast byte -/

/-- The history of the slot after a broadcast byte, sent to it or not. -/
theorem putcAppend_logSame (b : UInt8) (j : Fin n) : ∀ (is : List (Fin n)) (net : Net n), is.Nodup →
    if j ∈ is ∧ (net.conns j).admitted = true then
      ∃ log, LogSame j net.log log ∧
        LogSame j (.append .screen j (net.conns j).gen b :: log) (is.foldl (putcAppend b) net).log
    else LogSame j net.log (is.foldl (putcAppend b) net).log
  | [], net, _ => by
      rw [if_neg (by simp)]
      exact .refl j _
  | i :: is, net, hnd => by
      obtain ⟨hni, hnd'⟩ := List.nodup_cons.mp hnd
      have ih := putcAppend_logSame b j is (putcAppend b net i) hnd'
      rw [List.foldl_cons]
      by_cases hji : j = i
      · subst hji
        rw [if_neg fun h => hni h.1] at ih
        by_cases hadm : (net.conns j).admitted = true
        · rw [if_pos ⟨List.mem_cons_self, hadm⟩]
          refine ⟨net.log, .refl j _, ?_⟩
          have hlog : (putcAppend b net j).log =
              .append .screen j (net.conns j).gen b :: net.log := by
            rw [putcAppend, if_pos hadm]
            rfl
          rw [hlog] at ih
          exact ih
        · have hsame : putcAppend b net j = net := if_neg hadm
          rw [if_neg fun h => hadm h.2, hsame]
          rw [hsame] at ih
          exact ih
      · have hconn : (putcAppend b net i).conns j = net.conns j ∧
            LogSame j net.log (putcAppend b net i).log := by
          unfold putcAppend
          split
          · refine ⟨?_, .cons ?_ _⟩
            · rw [ringAppend, Net.set_conns_ne _ _ hji]
              rfl
            · intro g hg
              cases hg
              exact absurd rfl hji
          · exact ⟨rfl, .refl j _⟩
        rw [hconn.1] at ih
        simp only [List.mem_cons, hji, false_or]
        split at ih
        next hmem =>
          obtain ⟨log, hlog, hlog'⟩ := ih
          rw [if_pos hmem]
          exact ⟨log, hconn.2.trans hlog, hlog'⟩
        next hmem =>
          rw [if_neg hmem]
          exact hconn.2.trans ih

theorem netTxPutc_logSame {net : Net n} {b : UInt8} (hput : (netTxPutc net b).1 = true)
    (j : Fin n) :
    if ((netTxPutc net b).2.conns j).admitted = true then
      ∃ log, LogSame j net.log log ∧
        LogSame j (.append .screen j (net.conns j).gen b :: log) (netTxPutc net b).2.log
    else LogSame j net.log (netTxPutc net b).2.log := by
  unfold netTxPutc at hput ⊢
  dsimp only at hput ⊢
  split at hput
  next hok =>
    rw [if_pos hok]
    have hlog := putcAppend_logSame b j (List.finRange n) (putcCheck (List.finRange n) net).2
      (List.nodup_finRange n)
    have hcheck := putcCheck_conns j (List.finRange n) net
    rw [putcCheck_log] at hlog
    rw [putcAppend_conns b j _ _ (List.nodup_finRange n)]
    generalize (putcCheck (List.finRange n) net).2 = net₁ at *
    have hpush : ((net₁.conns j).push b).admitted = (net₁.conns j).admitted := rfl
    simp only [List.mem_finRange, true_and] at hlog ⊢
    cases hadm : (net₁.conns j).admitted with
    | true =>
        rw [hadm] at hpush
        simp only [hadm, if_true, hpush] at hlog ⊢
        rcases hcheck with hsame | hevicted
        · rw [hsame] at hlog
          exact hlog
        · rw [hevicted.2.2] at hadm
          cases hadm
    | false =>
        simp only [hadm, Bool.false_eq_true, if_false] at hlog ⊢
        exact hlog
  next => cases hput

/-- A byte that was taken. -/
theorem Wired.cast {net : Net n} {b : UInt8} {j : Fin n} {au : AuState} {h : List (CastEvent n)}
    (hw : Wired j (net.conns j) au net.log fun g => castsSince j g h) (hb : b ≠ IAC)
    (hput : (netTxPutc net b).1 = true) :
    Wired j ((netTxPutc net b).2.conns j) au (netTxPutc net b).2.log
      fun g => castsSince j g (.cast b :: h) := by
  have hcast := (netTxPutc_sent hput j).1
  have hlog := netTxPutc_logSame hput j
  generalize (netTxPutc net b).2 = net' at *
  cases hcast with
  | outside hadm hc =>
      rw [hc, hadm, if_neg Bool.false_ne_true] at hlog
      rw [hc]
      refine Wired.logSame ⟨hw.old, hw.fresh, hw.complete, fun hestab hin => ?_, hw.ring⟩ hlog
      have hready := (hw.screen hestab hin).1
      simp [Conn.admitted, hestab, hready] at hadm
  | evicted hc =>
      have hgone : (net'.conns j).admitted = false := by
        rw [hc.2.2]
        rfl
      rw [hgone, if_neg Bool.false_ne_true] at hlog
      rw [hc.2.2]
      have hclosed : Wired j (tcpResetListen (net.conns j)) au net.log
          fun g => castsSince j g (.cast b :: h) := hw.closed rfl rfl rfl rfl
      exact hclosed.logSame hlog
  | sent hadm hroom hc =>
      have hpush : ((net.conns j).push b).admitted = true := hadm
      rw [hc, if_pos hpush] at hlog
      obtain ⟨log, hlog, hlog'⟩ := hlog
      rw [hc]
      refine Wired.logSame ?_ hlog'
      have hw' := hw.logSame hlog
      refine ⟨fun g hg => ?_, fun hnew => ?_, ?_, fun hestab hin => ?_, hw'.ring⟩
      · have hold := hw'.old g hg
        have hne : ¬ (net.conns j).gen = g := Nat.ne_of_lt hg
        refine ⟨?_, ?_⟩
        · rw [streamOf, if_neg fun h => hne h.2]
          exact hold.1
        · rw [List.mem_cons, not_or]
          exact ⟨(fun heq => by cases heq), hold.2⟩
      · rw [List.mem_cons, not_or]
        exact ⟨(fun heq => by cases heq), hw'.fresh hnew⟩
      · show iacAfter (streamOf j (net.conns j).gen (.append .screen j (net.conns j).gen b :: log)) = _
        rw [streamOf_cons_append]
        exact (TelDecoded.plain ⟨hw'.complete, rfl⟩ hb).1
      · rw [List.mem_cons] at hin
        obtain ⟨hready, hau, hdec⟩ := hw'.screen hestab (hin.resolve_left fun heq => by cases heq)
        refine ⟨hready, hau, ?_⟩
        show TelDecoded (streamSince j (net.conns j).gen
          (.append .screen j (net.conns j).gen b :: log)) (castsSince j (net.conns j).gen h ++ [b])
        rw [streamSince, if_pos ⟨rfl, rfl⟩]
        exact hdec.plain hb

/-- A byte that was refused. -/
theorem Wired.refused {net : Net n} {b : UInt8} {j : Fin n} {au : AuState} {w : Nat → List UInt8}
    (hw : Wired j (net.conns j) au net.log w) (hput : (netTxPutc net b).1 = false) :
    Wired j ((netTxPutc net b).2.conns j) au (netTxPutc net b).2.log w := by
  obtain ⟨hlog, hconns⟩ := netTxPutc_refused hput
  rw [hlog]
  rcases hconns j with hsame | hevicted
  · rw [hsame]
    exact hw
  · rw [hevicted.2.2]
    exact hw.closed rfl rfl rfl rfl

/-! ## The streams over a run -/

/-- The streams of all slots, and a renderer that sends no IAC. -/
structure Wires (st : Server n) (h : List (CastEvent n)) : Prop where
  slots : ∀ i, Wired i (st.net.conns i) (st.slots i).auState st.net.log fun g => castsSince i g h
  render : st.render.Plain

theorem renderReset_plain (now : BitVec 32) (r : Render) : (renderReset now r).Plain := by
  simp [Render.Plain, Render.pending, renderReset]

theorem WireStep.plain {now : BitVec 32} {i : Fin n} {net net' : Net n} {r r' : Render}
    {au au' : AuState} {es : List (CastEvent n)} {answered : Bool}
    (hstep : WireStep now i net r au net' r' au' es answered) (h : r.Plain) : r'.Plain := by
  cases hstep with
  | resized => exact renderReset_plain now r
  | admitted => exact renderReset_plain now r
  | _ => exact h

namespace Wires

variable {st : Server n} {h : List (CastEvent n)}

/-- The stack went on by itself. -/
theorem acts (hw : Wires st h) {T : Prop} {S : Fin n → Conn → Prop} {net : Net n}
    (ha : Acts S T st.net net) (hmute : st.net.Mute net) : Wires { st with net := net } h :=
  ⟨fun i => (hw.slots i).acts ha hmute, hw.render⟩

theorem beginOne (hw : Wires st h) (now : BitVec 32) {i : Fin n}
    (hnew : (st.net.conns i).justEstab = true) (hsettled : (st.net.conns i).Settled)
    (hwhole : putsWhole (st.net.set i { st.net.conns i with justEstab := false }) i helloCommands =
      true) :
    Wires (telnetBegin now { st with
        net := st.net.set i { st.net.conns i with justEstab := false } } i)
      (beginEvents st i ++ h) := by
  generalize htaken : ({ st with
    net := st.net.set i { st.net.conns i with justEstab := false } } : Server n) = taken
  have hconn : ∀ j, taken.net.conns j =
      if j = i then { st.net.conns i with justEstab := false } else st.net.conns j := by
    intro j
    rw [← htaken]
    exact Net.set_conns _ _ _ _
  have hlog : taken.net.log = st.net.log := by
    rw [← htaken]
    rfl
  have hslots : taken.slots = st.slots := by rw [← htaken]
  have hself := hconn i
  rw [if_pos rfl] at hself
  have hevents : beginEvents st i = beginEvents taken i := by
    have hpassword : taken.password = st.password := by rw [← htaken]
    rw [beginEvents, beginEvents, hself, hpassword]
  have hat := Server.At.begin now i taken
  refine ⟨fun j => ?_, ?_⟩
  · by_cases hji : j = i
    · subst hji
      rw [hevents]
      have hold : Wired j (taken.net.conns j) (st.slots j).auState taken.net.log
          fun g => castsSince j g h := by
        rw [hself, hlog]
        exact (hw.slots j).same rfl rfl rfl nofun (hw.slots j).ring
      refine telnetBegin_wired hold ?_ ?_ ?_ ?_
      · rw [hself]
        exact hsettled hnew
      · rw [hself]
      · unfold Net.Unadmitted
        rw [hself, hlog]
        exact (hw.slots j).fresh (.inr hnew)
      · rw [← htaken]
        exact hwhole
    · obtain ⟨hsame, hlog'⟩ := telnetBegin_others now taken hji
      rw [hsame, hconn, if_neg hji, hat.slots j hji, hslots]
      have hcasts : ∀ g, castsSince j g (beginEvents st i ++ h) = castsSince j g h := by
        intro g
        refine castsSince_append g fun e he => ?_
        unfold beginEvents at he
        split at he
        · cases he
        · simp only [List.mem_cons, List.not_mem_nil, or_false] at he
          rcases he with rfl | rfl
          · exact .inl rfl
          · exact .inr ⟨i, _, rfl, Ne.symm hji⟩
      simp only [hcasts]
      rw [hlog] at hlog'
      exact (hw.slots j).logSame hlog'
  · have hbegin := telnetBegin_wire now taken i
    have hrender : taken.render = st.render := by rw [← htaken]
    split at hbegin
    · rw [hbegin.2.1, hrender]
      exact hw.render
    · rw [hbegin.2.1]
      exact renderReset_plain now _

theorem beginLoop (now : BitVec 32) : ∀ (fuel : Nat) {st : Server n} {h : List (CastEvent n)},
    Wires st h → (∀ j, (st.net.conns j).Settled) → beginWhole now fuel st = true →
      Wires (Dossh.beginLoop now fuel st) (beginCasts now fuel st h)
  | 0, _, _, hw, _, _ => hw
  | fuel + 1, st, h, hw, hsettled, hwhole => by
      rw [Dossh.beginLoop, beginCasts]
      rw [beginWhole] at hwhole
      rcases heq : netTakeNewSlot st.net with ⟨_ | i, net⟩
      · obtain ⟨rfl, -⟩ := netTakeNewSlot_none heq
        exact hw
      · rw [heq] at hwhole
        dsimp only at hwhole
        rw [Bool.and_eq_true] at hwhole
        obtain ⟨hnew, rfl⟩ := netTakeNewSlot_some heq
        refine beginLoop now fuel (hw.beginOne now hnew (hsettled i) hwhole.1) (fun j => ?_)
          hwhole.2
        refine Conn.Settled.stays ?_ ((Server.At.begin now i _).conns j)
        show Conn.Settled ((st.net.set i { st.net.conns i with justEstab := false }).conns j)
        rw [Net.set_conns]
        split
        · exact .of_old rfl
        · exact hsettled j

theorem byteOne (hw : Wires st h) (hnone : st.net.NoneNew) (now : BitVec 32) {i : Fin n} {b : UInt8}
    {net : Net n} (hget : netRxGetc st.net i = (some b, net))
    (hwhole : answers { st with net := net } i b = true → PutsWhole net i) :
    Wires (Dossh.telnetIn now { st with net := net } i b)
      (inEvents { st with net := net } i b ++ h) := by
  have hestab : (st.net.conns i).tstate = .estab ∧
      (net.conns i).tstate = (st.net.conns i).tstate ∧
      (net.conns i).justEstab = (st.net.conns i).justEstab := by
    unfold netRxGetc at hget
    dsimp only at hget
    split at hget
    · cases hget
    next hne =>
      cases hget
      rw [Net.set_conns_self]
      exact ⟨(hw.slots i).ring hne, rfl, rfl⟩
  have hgot : Wires { st with net := net } h := by
    have hacts : Acts (fun _ _ => True) True st.net (netRxGetc st.net i).2 :=
      netRxGetc_acts st.net i
    have hmute : st.net.Mute (netRxGetc st.net i).2 := by
      unfold netRxGetc
      dsimp only
      split
      · exact .refl _
      · exact .of_log rfl
    rw [hget] at hacts hmute
    exact hw.acts hacts hmute
  have hstep := telnetIn_wire now { st with net := net } i b
  refine ⟨fun j => ?_, hstep.plain hgot.render⟩
  by_cases hji : j = i
  · subst hji
    exact hstep.wired (hgot.slots j) (hestab.2.1.trans hestab.1) (hestab.2.2.trans (hnone j)) hwhole
  · obtain ⟨hsame, hlog⟩ := hstep.others hji
    have hcasts : ∀ g, castsSince j g (inEvents { st with net := net } i b ++ h) =
        castsSince j g h := by
      intro g
      refine castsSince_append g fun e he => ?_
      rcases hstep.events e he with rfl | ⟨g', rfl⟩
      · exact .inl rfl
      · exact .inr ⟨i, g', rfl, Ne.symm hji⟩
    rw [hsame, (Server.At.telnetIn now i _ b).slots j hji]
    simp only [hcasts]
    exact (hgot.slots j).logSame hlog

/-- Received bytes make no connection new. -/
theorem rx_noneNew (now : BitVec 32) {i : Fin n} {b : UInt8} {net : Net n} (hnone : st.net.NoneNew)
    (hget : netRxGetc st.net i = (some b, net)) :
    (Dossh.telnetIn now { st with net := net } i b).net.NoneNew := by
  intro j
  rw [((Server.At.telnetIn now i { st with net := net } b).conns j).just]
  unfold netRxGetc at hget
  dsimp only at hget
  split at hget
  · cases hget
  · cases hget
    show ((st.net.set i _).conns j).justEstab = false
    rw [Net.set_conns]
    split
    · exact hnone i
    · exact hnone j

theorem rxLoop (now : BitVec 32) (i : Fin n) : ∀ (fuel : Nat) {st : Server n}
    {h : List (CastEvent n)}, Wires st h → st.net.NoneNew → rxWhole now i fuel st = true →
      Wires (Dossh.rxLoop now i fuel st) (rxCasts now i fuel st h) ∧
        (Dossh.rxLoop now i fuel st).net.NoneNew
  | 0, _, _, hw, hnone, _ => ⟨hw, hnone⟩
  | fuel + 1, st, h, hw, hnone, hwhole => by
      rw [Dossh.rxLoop, rxCasts]
      rw [rxWhole] at hwhole
      rcases heq : netRxGetc st.net i with ⟨_ | b, net⟩
      · have hnet : net = st.net := by
          unfold netRxGetc at heq
          dsimp only at heq
          split at heq
          · cases heq
            rfl
          · cases heq
        subst hnet
        exact ⟨hw, hnone⟩
      · rw [heq] at hwhole
        dsimp only at hwhole
        simp only [Bool.and_eq_true, Bool.or_eq_true, Bool.not_eq_true', decide_eq_true_eq] at hwhole
        refine rxLoop now i fuel (hw.byteOne hnone now heq fun hans => ?_)
          (rx_noneNew now hnone heq) hwhole.2
        rcases hwhole.1 with hno | hputs
        · rw [hans] at hno
          cases hno
        · exact hputs

theorem rxSlots (now : BitVec 32) : ∀ (is : List (Fin n)) {st : Server n} {h : List (CastEvent n)},
    Wires st h → st.net.NoneNew → slotsWhole now is st = true →
      Wires (is.foldl (fun st i => Dossh.rxLoop now i RCV_SZ st) st) (slotsCasts now is st h) ∧
        (is.foldl (fun st i => Dossh.rxLoop now i RCV_SZ st) st).net.NoneNew
  | [], _, _, hw, hnone, _ => ⟨hw, hnone⟩
  | i :: is, st, h, hw, hnone, hwhole => by
      rw [slotsWhole, Bool.and_eq_true] at hwhole
      obtain ⟨hw', hnone'⟩ := hw.rxLoop now i RCV_SZ hnone hwhole.1
      exact rxSlots now is hw' hnone' hwhole.2

theorem pump (s : Screen) : ∀ (budget : Nat) {st : Server n} {h : List (CastEvent n)}, Wires st h →
    Wires (Dossh.txPumpLoop s budget st) (pumpCasts s budget st h)
  | 0, _, _, hw => hw
  | budget + 1, st, h, hw => by
      rw [Dossh.txPumpLoop, pumpCasts]
      have hplain := renderNextByte_plain false s hw.render
      rcases hnext : renderNextByte false s st.render with ⟨_ | b, render⟩
      · rw [hnext] at hplain
        exact ⟨hw.slots, hplain.2⟩
      · rw [hnext] at hplain
        have hb : b ≠ IAC := by
          rintro rfl
          exact hplain.1 (by simp [IAC])
        dsimp only
        rcases hput : netTxPutc st.net b with ⟨_ | _, net⟩
        · have hrefused : (netTxPutc st.net b).1 = false := by rw [hput]
          refine ⟨fun j => ?_, ?_⟩
          · have hslot := (hw.slots j).refused hrefused
            rw [hput] at hslot
            exact hslot
          · have hpend : (renderPushback b render).pending ⊆ b :: render.pending := by
              intro x hx
              simp only [renderPushback, Render.pending, Option.toList_some, List.singleton_append,
                List.mem_cons, List.mem_append] at hx ⊢
              exact hx.imp_right .inr
            intro hmem
            rcases List.mem_cons.mp (hpend hmem) with heq | hmem
            · exact hb heq.symm
            · exact hplain.2 hmem
        · have htaken : (netTxPutc st.net b).1 = true := by rw [hput]
          refine pump s budget ⟨fun j => ?_, hplain.2⟩
          have hslot := (hw.slots j).cast hb htaken
          rw [hput] at hslot
          exact hslot

theorem txPump_stays (s : Screen) (j : Fin n) : ∀ (budget : Nat) (st : Server n),
    (st.net.conns j).Stays ((Dossh.txPumpLoop s budget st).net.conns j)
  | 0, _ => .refl _
  | budget + 1, st => by
      rw [Dossh.txPumpLoop]
      split
      · exact .refl _
      next b render _ =>
        have hput := netTxPutc_stays st.net b j
        split
        next net heq =>
          rw [heq] at hput
          exact hput.trans (txPump_stays s j budget { st with net := net, render := render })
        next net heq =>
          rw [heq] at hput
          exact hput

theorem netTick (hw : Wires st h) (hnone : st.net.NoneNew) (pkt : Option (List UInt8)) (s : Screen)
    (hwhole : tickWhole pkt s st = true) :
    Wires (Dossh.netTick pkt s st) (tickCasts pkt s st h) ∧ (Dossh.netTick pkt s st).net.NoneNew := by
  rw [tickWhole, Bool.and_eq_true] at hwhole
  have hacts : Acts (fun _ _ => True) True st.net (netPoll s.ticks pkt st.net) :=
    netPoll_acts trivial s.ticks pkt st.net fun _ _ => trivial
  have hpoll := hw.acts hacts (netPoll_mute s.ticks pkt st.net)
  have hbegin := hpoll.beginLoop s.ticks (n + 1)
    (fun j => netPoll_settled s.ticks pkt st.net j (hnone j)) hwhole.1
  have hnone' : (Dossh.beginLoop s.ticks (n + 1)
      { st with net := netPoll s.ticks pkt st.net }).net.NoneNew := by
    refine beginLoop_noneNew s.ticks (n + 1) _ (Nat.lt_succ_of_le ?_)
    exact (Finset.card_le_univ _).trans_eq (Fintype.card_fin n)
  obtain ⟨hrx, hnone''⟩ := hbegin.rxSlots s.ticks (List.finRange n) hnone' hwhole.2
  unfold Dossh.netTick tickCasts
  dsimp only
  split
  · have hpump := hrx.pump s TX_BUDGET
    refine ⟨hpump.acts (S := fun _ _ => True) (T := True) (netTxFlush_acts s.ticks _)
      (netTxFlush_mute s.ticks _), fun j => ?_⟩
    rw [(netTxFlush_conns s.ticks _ j).stays.just, txPump, (txPump_stays s j TX_BUDGET _).just]
    exact hnone'' j
  · exact ⟨hrx, hnone''⟩

theorem run : ∀ (ticks : List (Option (List UInt8) × Screen)) {st : Server n}
    {h : List (CastEvent n)}, Wires st h → st.net.NoneNew → telnetWhole ticks st = true →
      Wires (telnetRun ticks st) (telnetCasts ticks st h)
  | [], _, _, hw, _, _ => hw
  | (pkt, s) :: ticks, _, _, hw, hnone, hwhole => by
      rw [telnetWhole, Bool.and_eq_true] at hwhole
      obtain ⟨hw', hnone'⟩ := hw.netTick hnone pkt s hwhole.1
      exact run ticks hw' hnone' hwhole.2

theorem init (gMac gIp : List UInt8) (myPort : Nat) (pw : List UInt8) (eofExit : Bool)
    (now : BitVec 32) (r : Render) :
    Wires (serverInit gMac gIp myPort pw eofExit (renderReset now r) : Server n) [] := by
  refine ⟨fun i => ?_, renderReset_plain now r⟩
  refine ⟨fun _ _ => ⟨rfl, List.not_mem_nil⟩, fun _ => List.not_mem_nil, rfl, ?_, fun hne => ?_⟩
  · rintro ⟨⟩
  · exact absurd rfl hne

end Wires

/-! ## The frames over a run -/

/-- Since the last reset the broadcast starts a full frame. -/
def FrameOk (e : CastEvent n) (past : List (CastEvent n)) : Prop :=
  CastEvent.reset ∈ e :: past → BeginsFrame (castsReset (e :: past))

/-- The renderer and the broadcast.  Since a reset the bytes handed out and those pending make up a
full frame, as far as they go. -/
structure Paints (r : Render) (h : List (CastEvent n)) : Prop where
  paint : CastEvent.reset ∈ h → Painting (castsReset h ++ r.pending) r
  frames : History.Always FrameOk h
  render : r.Plain
  plain : 0xFF ∉ castsOf h

namespace Paints

variable {r r' : Render} {h : List (CastEvent n)}

theorem frame (hp : Paints r h) : CastEvent.reset ∈ h → BeginsFrame (castsReset h) :=
  fun hmem => (hp.paint hmem).begins (List.prefix_append _ _)

theorem ready (hp : Paints r h) (i : Fin n) (g : Nat) : Paints r (.ready i g :: h) := by
  have hmem : CastEvent.reset ∈ CastEvent.ready i g :: h → CastEvent.reset ∈ h := by simp
  exact ⟨fun hin => hp.paint (hmem hin), ⟨fun hin => hp.frame (hmem hin), hp.frames⟩, hp.render,
    hp.plain⟩

theorem reset (hp : Paints r h) (now : BitVec 32) : Paints (renderReset now r) (.reset :: h) := by
  have hpaint : Painting (castsReset (.reset :: h) ++ (renderReset now r).pending)
      (renderReset now r) := Painting.reset now r
  refine ⟨fun _ => hpaint, ⟨fun _ => ?_, hp.frames⟩, renderReset_plain now r, hp.plain⟩
  exact hpaint.begins (List.prefix_append _ _)

theorem step {now : BitVec 32} {i : Fin n} {net net' : Net n} {au au' : AuState}
    {es : List (CastEvent n)} {answered : Bool}
    (hstep : WireStep now i net r au net' r' au' es answered) (hp : Paints r h) :
    Paints r' (es ++ h) := by
  cases hstep with
  | resized => exact hp.reset now
  | admitted => exact (hp.ready i _).reset now
  | _ => exact hp

theorem beginOne {st : Server n} (hp : Paints st.render h) (now : BitVec 32) (i : Fin n)
    (net : Net n) :
    Paints (telnetBegin now { st with net := net } i).render (beginEvents st i ++ h) := by
  have hbegin := telnetBegin_wire now { st with net := net } i
  unfold beginEvents
  split at hbegin
  next hpw =>
    rw [hbegin.2.1, if_pos hpw]
    exact hp
  next hpw =>
    rw [hbegin.2.1, if_neg hpw]
    exact (hp.ready i _).reset now

theorem beginLoop (now : BitVec 32) : ∀ (fuel : Nat) {st : Server n} {h : List (CastEvent n)},
    Paints st.render h → Paints (Dossh.beginLoop now fuel st).render (beginCasts now fuel st h)
  | 0, _, _, hp => hp
  | fuel + 1, st, h, hp => by
      rw [Dossh.beginLoop, beginCasts]
      rcases netTakeNewSlot st.net with ⟨_ | i, net⟩
      · exact hp
      · exact beginLoop now fuel (hp.beginOne now i net)

theorem rxLoop (now : BitVec 32) (i : Fin n) : ∀ (fuel : Nat) {st : Server n}
    {h : List (CastEvent n)}, Paints st.render h →
      Paints (Dossh.rxLoop now i fuel st).render (rxCasts now i fuel st h)
  | 0, _, _, hp => hp
  | fuel + 1, st, h, hp => by
      rw [Dossh.rxLoop, rxCasts]
      rcases netRxGetc st.net i with ⟨_ | b, net⟩
      · exact hp
      · exact rxLoop now i fuel (hp.step (telnetIn_wire now { st with net := net } i b))

theorem rxSlots (now : BitVec 32) : ∀ (is : List (Fin n)) {st : Server n} {h : List (CastEvent n)},
    Paints st.render h →
      Paints (is.foldl (fun st i => Dossh.rxLoop now i RCV_SZ st) st).render (slotsCasts now is st h)
  | [], _, _, hp => hp
  | i :: is, _, _, hp => rxSlots now is (hp.rxLoop now i RCV_SZ)

/-- A byte was pulled and taken. -/
theorem cast {b : UInt8} (hp : Paints r h) (s : Screen)
    (hnext : renderNextByte false s r = (some b, r')) : Paints r' (.cast b :: h) := by
  have hplain := renderNextByte_plain false s hp.render
  rw [hnext] at hplain
  have hpaint : CastEvent.reset ∈ CastEvent.cast b :: h →
      Painting (castsReset (.cast b :: h) ++ r'.pending) r' := by
    intro hmem
    have hnew := (hp.paint (by simpa using hmem)).next false s
    rw [hnext] at hnew
    exact hnew
  refine ⟨hpaint, ⟨fun hmem => ?_, hp.frames⟩, hplain.2, ?_⟩
  · exact (hpaint hmem).begins (List.prefix_append _ _)
  · rw [castsOf, List.mem_append, not_or]
    exact ⟨hp.plain, hplain.1⟩

/-- A byte was pulled and handed back. -/
theorem pushback {b : UInt8} (hp : Paints r h) (s : Screen)
    (hnext : renderNextByte false s r = (some b, r')) : Paints (renderPushback b r') h := by
  have hplain := renderNextByte_plain false s hp.render
  have hpushed : r'.pushed = none := by
    rcases renderNextByte_pulls false s r with hpull | ⟨-, hpull⟩
    · obtain ⟨⟨off, heq⟩, -⟩ := hpull
      rw [hnext] at heq
      exact congrArg Render.pushed heq
    · obtain ⟨⟨off, heq⟩, -⟩ := hpull
      rw [hnext] at heq
      exact congrArg Render.pushed heq
  have hpend : (renderPushback b r').pending = [b] ++ r'.pending := by
    rw [Render.pending, Render.pending, hpushed]
    rfl
  rw [hnext] at hplain
  refine ⟨fun hmem => ?_, hp.frames, ?_, hp.plain⟩
  · have hnew := (hp.paint hmem).next false s
    rw [hnext] at hnew
    rw [hpend, ← List.append_assoc]
    exact hnew.out r'.obuf r'.oOff (some b)
  · unfold Render.Plain
    rw [hpend, List.mem_append, not_or]
    exact hplain

theorem pump (s : Screen) : ∀ (budget : Nat) {st : Server n} {h : List (CastEvent n)},
    Paints st.render h →
      Paints (Dossh.txPumpLoop s budget st).render (pumpCasts s budget st h)
  | 0, _, _, hp => hp
  | budget + 1, st, h, hp => by
      rw [Dossh.txPumpLoop, pumpCasts]
      rcases hnext : renderNextByte false s st.render with ⟨_ | b, render⟩
      · have hplain := renderNextByte_plain false s hp.render
        rw [hnext] at hplain
        refine ⟨fun hmem => ?_, hp.frames, hplain.2, hp.plain⟩
        have hnew := (hp.paint hmem).next false s
        rw [hnext, Option.toList_none, List.append_nil] at hnew
        exact hnew
      · dsimp only
        rcases netTxPutc st.net b with ⟨_ | _, net⟩
        · exact hp.pushback s hnext
        · exact pump s budget (hp.cast s hnext)

theorem netTick {st : Server n} (hp : Paints st.render h) (pkt : Option (List UInt8)) (s : Screen) :
    Paints (Dossh.netTick pkt s st).render (tickCasts pkt s st h) := by
  have hpoll : Paints ({ st with net := netPoll s.ticks pkt st.net } : Server n).render h := hp
  have hbegin := hpoll.beginLoop s.ticks (n + 1)
  have hrx := hbegin.rxSlots s.ticks (List.finRange n)
  unfold Dossh.netTick tickCasts
  dsimp only
  split
  · exact hrx.pump s TX_BUDGET
  · exact hrx

theorem run : ∀ (ticks : List (Option (List UInt8) × Screen)) {st : Server n}
    {h : List (CastEvent n)}, Paints st.render h →
      Paints (telnetRun ticks st).render (telnetCasts ticks st h)
  | [], _, _, hp => hp
  | (pkt, s) :: ticks, _, _, hp => run ticks (hp.netTick pkt s)

end Paints

end Dossh
