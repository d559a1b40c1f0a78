import Dossh.Net.Life
import Dossh.Net.Timer
import Dossh.Ssh.Record
import Dossh.Worker.Pacing

/-!
# The worker step by step

A tick of `ssh_net_worker` is a sequence of steps, each of which does one thing to the state.  The
phase says where in the tick the worker is.  An invariant of a run is an invariant of the steps, and
may say in each phase what holds there.
-/

namespace Dossh

variable {n : Nat}

/-- Where in a tick the worker is.  The lists hold the slots that are still to be serviced. -/
inductive Phase (n : Nat) where
  /-- Between two ticks. -/
  | idle
  /-- Taking new connections. -/
  | joining
  /-- Between two slots. -/
  | between (todo : List (Fin n))
  /-- Collecting what the slot received. -/
  | reading (i : Fin n) (todo : List (Fin n))
  /-- `ssh_input` has returned. -/
  | fed (i : Fin n) (todo : List (Fin n))
  /-- Passing the keystrokes on. -/
  | draining (i : Fin n) (todo : List (Fin n))
  /-- Ctrl-D has closed the channel. -/
  | closing (i : Fin n) (todo : List (Fin n))
  /-- The keystrokes are passed on. -/
  | looking (i : Fin n) (todo : List (Fin n))
  /-- Readiness and size have been looked at. -/
  | ending (i : Fin n) (todo : List (Fin n))
  /-- In `ssh_net_broadcast`. -/
  | casting

/-- The slot that is being serviced. -/
def Phase.slot : Phase n → Option (Fin n)
  | .reading i _ | .fed i _ | .draining i _ | .closing i _ | .looking i _ | .ending i _ => some i
  | _ => none

namespace Worker

/-- The worker can be draining `g_ob` to slot `i`: the slot is being serviced, or its session has
just begun. -/
def Turned (p : Phase n) (w : Worker n) (i : Fin n) : Prop :=
  p.slot = some i ∨ p = .joining ∧ w.active i = true ∧ w.hist.sess i = (w.net.conns i).gen

/-- `sshBegin` before its output is drained. -/
def begun (env : SshEnv) (w : Worker n) (i : Fin n) : Worker n :=
  let w := w.enter i
  let w := (w.setSsh i (sshReset env w.shared)).setActive i true
  { w with
    readySeen := Function.update w.readySeen i false, cols := 80, rows := 25
    hist := { w.hist with
      sess := Function.update w.hist.sess i (w.net.conns i).gen
      typed := Function.update w.hist.typed i []
      ended := Function.update w.hist.ended i false
      taken := w.hist.taken + 1 } }

/-- The worker turns to a slot to service it. -/
def served (w : Worker n) (i : Fin n) : Worker n :=
  let w := w.enter i
  { w with hist := { w.hist with stale := w.hist.stale || !w.shared.cin.isEmpty } }

/-- At most `max` bytes of `g_ob` go to the ring of slot `i`. -/
def output (w : Worker n) (i : Fin n) (max : Nat) : Worker n :=
  let r := sshOutput w.shared max
  { w with shared := r.2, net := (putcs i r.1 w.net).2 }

/-- `ssh_pump_output` is done with slot `i`. -/
def Pumped (w : Worker n) (i : Fin n) : Prop := w.shared.ob = [] ∨ netTxRoomSlot w.net i = 0

/-- A byte of slot `i` goes to the key mapper. -/
def keyed (w : Worker n) (i : Fin n) (b : UInt8) (cin : List UInt8) : Worker n :=
  { w with
    shared := { w.shared with cin := cin }
    key := ansiKeyByte w.key b
    hist := { w.hist with
      typed := Function.update w.hist.typed i (w.hist.typed i ++ [b]) } }

/-- Ctrl-D closes the channel of slot `i`. -/
def hungUp (env : SshEnv) (w : Worker n) (i : Fin n) (cin : List UInt8) : Worker n :=
  let w := { w with
    shared := { w.shared with cin := cin }
    hist := { w.hist with
      ended := Function.update w.hist.ended i true
      unopened := w.hist.unopened || !(w.slots i).chanOpen } }
  w.setSsh i (sshChannelClose env (w.ssh i))

/-- Slot `i` is to be torn down. -/
def doomed (w : Worker n) (i : Fin n) : Bool :=
  (w.slots i).chanClosed || sshFailed (w.slots i) || (w.slots i).state = .closed

/-- `sshTeardown` once its output is drained. -/
def torn (w : Worker n) (i : Fin n) : Worker n :=
  let w := { w with shared := sshDiscardOutput w.shared }
  { w with net := netSlotDrop w.net i }.setActive i false

/-- One step of a tick. -/
inductive Step (env : SshEnv) : Phase n → Worker n → Phase n → Worker n → Prop where
  | poll (w : Worker n) (now : BitVec 32) (pkt : Option (List UInt8)) :
      Step env .idle w .joining { w with net := netPoll now pkt w.net }
  | begin (w : Worker n) (i : Fin n) (net : Net n) (h : netTakeNewSlot w.net = (some i, net)) :
      Step env .joining w .joining (begun env { w with net := net } i)
  | joined (w : Worker n) (h : w.net.NoneNew) :
      Step env .joining w (.between (List.finRange n)) w
  | skip (w : Worker n) (i : Fin n) (todo : List (Fin n)) (hact : w.active i = false) :
      Step env (.between (i :: todo)) w (.between todo) w
  | lost (w : Worker n) (i : Fin n) (todo : List (Fin n))
      (hcon : netSlotConnected w.net i = false) :
      Step env (.between (i :: todo)) w (.between todo) (w.setActive i false)
  | serve (w : Worker n) (i : Fin n) (todo : List (Fin n)) (hact : w.active i = true)
      (hcon : netSlotConnected w.net i = true) :
      Step env (.between (i :: todo)) w (.reading i todo) (w.served i)
  | getc (w : Worker n) (i : Fin n) (todo : List (Fin n)) :
      Step env (.reading i todo) w (.reading i todo) { w with net := (netRxGetc w.net i).2 }
  | quiet (w : Worker n) (i : Fin n) (todo : List (Fin n)) :
      Step env (.reading i todo) w (.fed i todo) w
  | input (w : Worker n) (i : Fin n) (todo : List (Fin n)) (data : List UInt8)
      (beyond : Nat → Nat → UInt8) (fuel : Nat) (s : Ssh)
      (h : sshInput env beyond fuel (w.ssh i) data = .back s) :
      Step env (.reading i todo) w (.fed i todo) (w.setSsh i s)
  | pumped (w : Worker n) (i : Fin n) (todo : List (Fin n)) (h : w.Pumped i) :
      Step env (.fed i todo) w (.draining i todo) w
  | key (w : Worker n) (i : Fin n) (todo : List (Fin n)) (b : UInt8) (cin : List UInt8)
      (h : w.shared.cin = b :: cin) (hb : (w.eofExit && b = 0x04) = false) :
      Step env (.draining i todo) w (.draining i todo) (w.keyed i b cin)
  | drained (w : Worker n) (i : Fin n) (todo : List (Fin n)) (h : w.shared.cin = []) :
      Step env (.draining i todo) w (.looking i todo) w
  | eof (w : Worker n) (i : Fin n) (todo : List (Fin n)) (cin : List UInt8)
      (h : w.shared.cin = 0x04 :: cin) (heof : w.eofExit = true) :
      Step env (.draining i todo) w (.closing i todo) (hungUp env w i cin)
  | closed (w : Worker n) (i : Fin n) (todo : List (Fin n)) (h : w.Pumped i) :
      Step env (.closing i todo) w (.looking i todo) w
  | look (w : Worker n) (i : Fin n) (todo : List (Fin n)) (now : BitVec 32) :
      Step env (.looking i todo) w (.ending i todo) (sshLook now w i)
  | keep (w : Worker n) (i : Fin n) (todo : List (Fin n)) (h : w.doomed i = false) :
      Step env (.ending i todo) w (.between todo) w
  | teardown (w : Worker n) (i : Fin n) (todo : List (Fin n)) (h : w.doomed i = true) :
      Step env (.ending i todo) w (.between todo) (w.torn i)
  | cast (w : Worker n) : Step env (.between []) w .casting w
  | evict (w : Worker n) (i : Fin n) : Step env .casting w .casting (w.evict i)
  | still (w : Worker n) (s : Screen) (r : Render)
      (h : renderNextByte false s w.render = (none, r)) :
      Step env .casting w .casting { w with render := r }
  | round (w : Worker n) (s : Screen) (cap : Nat) (data : List UInt8) (r : Render)
      (h : pullLoop s cap w.render = (data, r)) (hne : data ≠ []) (hcap : cap ≤ SSH_CHAN_CHUNK)
      (hfit : ∀ i, w.eligible i = true → cap ≤ w.slotCap i) :
      Step env .casting w .casting (emitRound env data { w with render := r })
  | done (w : Worker n) : Step env .casting w .idle w
  | output (p : Phase n) (w : Worker n) (i : Fin n) (max : Nat) (howner : w.hist.owner = some i)
      (hturn : w.Turned p i) (hmax : max ≤ netTxRoomSlot w.net i) : Step env p w p (w.output i max)
  | flush (p : Phase n) (w : Worker n) (now : BitVec 32) :
      Step env p w p { w with net := netTxFlush now w.net }

/-- A sequence of steps. -/
inductive Steps (env : SshEnv) (p : Phase n) (w : Worker n) : Phase n → Worker n → Prop where
  | refl : Steps env p w p w
  | tail {p₁ w₁ p₂ w₂} (h : Steps env p w p₁ w₁) (hstep : Step env p₁ w₁ p₂ w₂) :
      Steps env p w p₂ w₂

namespace Steps

variable {env : SshEnv} {p p₁ p₂ : Phase n} {w w₁ w₂ : Worker n}

theorem one (h : Step env p w p₁ w₁) : Steps env p w p₁ w₁ := .tail .refl h

theorem trans (h : Steps env p w p₁ w₁) (h' : Steps env p₁ w₁ p₂ w₂) : Steps env p w p₂ w₂ := by
  induction h' with
  | refl => exact h
  | tail _ hstep ih => exact ih.tail hstep

/-- What every step keeps is kept by a sequence of them. -/
theorem preserves {I : Phase n → Worker n → Prop}
    (hI : ∀ {p w p' w'}, I p w → Step env p w p' w' → I p' w') (h : Steps env p w p₁ w₁)
    (h₀ : I p w) : I p₁ w₁ := by
  induction h with
  | refl => exact h₀
  | tail _ hstep ih => exact hI ih hstep

end Steps

/-! ## The loops of a tick -/

variable {env : SshEnv}

theorem putcs_stays (i j : Fin n) : ∀ (bs : List UInt8) (net : Net n),
    (net.conns j).Stays ((putcs i bs net).2.conns j)
  | [], _ => .refl _
  | b :: bs, net => (netTxPutcSlot_stays net i b j).trans (putcs_stays i j bs _)

theorem Turned.output {p : Phase n} {w : Worker n} {i : Fin n} (h : w.Turned p i) (max : Nat) :
    (w.output i max).Turned p i :=
  h.imp_right fun ⟨hp, hact, hsess⟩ => ⟨hp, hact, hsess.trans (putcs_stays i i _ w.net).gen.symm⟩

theorem pumpLoop_steps (env : SshEnv) (p : Phase n) (i : Fin n) : ∀ (fuel : Nat)
    {w : Worker n}, w.hist.owner = some i → w.Turned p i →
      Steps env p w p (pumpLoop i fuel w) ∧ (pumpLoop i fuel w).hist = w.hist ∧
        (w.shared.ob.length < fuel → (pumpLoop i fuel w).Pumped i)
  | 0, w, _, _ => ⟨.refl, rfl, fun h => absurd h (Nat.not_lt_zero _)⟩
  | fuel + 1, w, howner, hturn => by
      rw [pumpLoop]
      dsimp only
      split
      next hroom => exact ⟨.refl, rfl, fun _ => .inr hroom⟩
      next hroom =>
        generalize hmax : (if netTxRoomSlot w.net i > 128 then 128 else netTxRoomSlot w.net i) = max
        have hle : max ≤ netTxRoomSlot w.net i ∧ 0 < max := by
          rw [← hmax]
          split <;> omega
        split
        next hnil =>
          have hob : w.shared.ob = [] := by
            rw [sshOutput, List.take_eq_nil_iff] at hnil
            exact hnil.resolve_left (by omega)
          have hsame : (sshOutput w.shared max).2 = w.shared := by
            rw [sshOutput, hob, List.drop_nil, ← hob]
          rw [hsame]
          exact ⟨.refl, rfl, fun _ => .inl hob⟩
        next hsome =>
          obtain ⟨hsteps, hhist, hpumped⟩ := pumpLoop_steps env p i fuel (w := w.output i max)
            howner (hturn.output max)
          refine ⟨(Steps.one (.output p w i max howner hturn hle.1)).trans hsteps, hhist,
            fun hfuel => ?_⟩
          refine hpumped ?_
          have hob : w.shared.ob.length ≠ 0 := by
            intro hzero
            rw [List.length_eq_zero_iff] at hzero
            exact hsome (by rw [sshOutput, hzero, List.take_nil])
          show (w.shared.ob.drop max).length < fuel
          rw [List.length_drop]
          omega

theorem pumpLoop_slots (i : Fin n) : ∀ (fuel : Nat) (w : Worker n),
    (pumpLoop i fuel w).slots = w.slots
  | 0, _ => rfl
  | fuel + 1, w => by
      rw [pumpLoop]
      dsimp only
      generalize (if netTxRoomSlot w.net i > 128 then 128 else netTxRoomSlot w.net i) = max
      split
      · rfl
      · split
        · rfl
        · exact pumpLoop_slots i fuel _

theorem pumpLoop_stays (i j : Fin n) : ∀ (fuel : Nat) (w : Worker n),
    (w.net.conns j).Stays ((pumpLoop i fuel w).net.conns j)
  | 0, _ => .refl _
  | fuel + 1, w => by
      rw [pumpLoop]
      dsimp only
      generalize (if netTxRoomSlot w.net i > 128 then 128 else netTxRoomSlot w.net i) = max
      split
      · exact .refl _
      · split
        · exact .refl _
        · exact (putcs_stays i j _ w.net).trans (pumpLoop_stays i j fuel (w.output i max))

theorem sshPumpOutput_slots (i : Fin n) (w : Worker n) : (sshPumpOutput w i).slots = w.slots :=
  pumpLoop_slots i _ w

theorem sshPumpOutput_steps (env : SshEnv) {p : Phase n} {i : Fin n} {w : Worker n}
    (howner : w.hist.owner = some i) (hturn : w.Turned p i) :
    Steps env p w p (sshPumpOutput w i) ∧ (sshPumpOutput w i).hist = w.hist ∧
      (sshPumpOutput w i).Pumped i := by
  obtain ⟨hsteps, hhist, hpumped⟩ :=
    pumpLoop_steps env p i (w.shared.ob.length + 1) howner hturn
  exact ⟨hsteps, hhist, hpumped (Nat.lt_succ_self _)⟩

theorem begun_owner (env : SshEnv) (w : Worker n) (i : Fin n) :
    (begun env w i).hist.owner = some i := rfl

theorem begun_turned (env : SshEnv) (w : Worker n) (i : Fin n) :
    (begun env w i).Turned .joining i := by
  refine .inr ⟨rfl, ?_, ?_⟩
  · show Function.update w.active i true i = true
    rw [Function.update_self]
  · show Function.update w.hist.sess i (w.net.conns i).gen i = (w.net.conns i).gen
    rw [Function.update_self]

theorem sshBeginLoop_steps (env : SshEnv) : ∀ (fuel : Nat) (w : Worker n),
    Steps env .joining w .joining (sshBeginLoop env fuel w)
  | 0, _ => .refl
  | fuel + 1, w => by
      rw [sshBeginLoop]
      rcases htake : netTakeNewSlot w.net with ⟨_ | i, net⟩
      · have hnet : net = w.net := by
          unfold netTakeNewSlot at htake
          split at htake
          · cases htake
          · cases htake
            rfl
        subst hnet
        exact .refl
      · have hpump := sshPumpOutput_steps env (begun_owner env { w with net := net } i)
          (begun_turned env { w with net := net } i)
        exact ((Steps.one (.begin w i net htake)).trans hpump.1).trans (sshBeginLoop_steps env fuel _)

/-- The loop over new connections leaves none. -/
theorem sshBeginLoop_noneNew (env : SshEnv) : ∀ (fuel : Nat) (w : Worker n),
    w.net.newSlots.card < fuel → (sshBeginLoop env fuel w).net.NoneNew
  | 0, _, hlt => absurd hlt (Nat.not_lt_zero _)
  | fuel + 1, w, hlt => by
      rw [sshBeginLoop]
      rcases htake : netTakeNewSlot w.net with ⟨_ | i, net⟩
      · obtain ⟨rfl, hnone⟩ := netTakeNewSlot_none htake
        exact hnone
      · obtain ⟨hnew, rfl⟩ := netTakeNewSlot_some htake
        refine sshBeginLoop_noneNew env fuel _ ?_
        have hless := Net.newSlots_taken hnew
        have hstays : ∀ (w : Worker n) j, (w.net.conns j).Stays ((sshBegin env w i).net.conns j) :=
          fun w j => pumpLoop_stays i j _ (begun env w i)
        rw [Net.newSlots_stays fun j => hstays { w with
          net := w.net.set i { w.net.conns i with justEstab := false } } j]
        exact hless.trans_le (Nat.le_of_lt_succ hlt)

theorem rxTake_steps (env : SshEnv) (i : Fin n) (todo : List (Fin n)) : ∀ (k : Nat)
    (w : Worker n), Steps env (.reading i todo) w (.reading i todo) { w with net := (rxTake i k w.net).2 }
  | 0, _ => .refl
  | k + 1, w => by
      have hget : Steps env (.reading i todo) w (.reading i todo)
          { w with net := (netRxGetc w.net i).2 } := .one (.getc w i todo)
      rw [rxTake]
      rcases hrx : netRxGetc w.net i with ⟨_ | b, net⟩
      · rw [hrx] at hget
        exact hget
      · rw [hrx] at hget
        exact hget.trans (rxTake_steps env i todo k { w with net := net })

theorem serviceInput_steps {t : Tick n} {w w' : Worker n} {i : Fin n} (todo : List (Fin n))
    (h : serviceInput env t w i = some w') :
    Steps env (.reading i todo) w (.fed i todo) w' ∧ w'.hist = w.hist := by
  have hrx := rxTake_steps env i todo 512 w
  unfold serviceInput at h
  dsimp only at h
  split at h
  · cases h
    exact ⟨hrx.tail (.quiet _ i todo), rfl⟩
  · split at h
    next s hback =>
      cases h
      exact ⟨hrx.tail (.input _ i todo _ _ _ s hback), rfl⟩
    · cases h
    · cases h

/-- Flushing neither fills nor frees a ring. -/
theorem netTxFlush_room (now : BitVec 32) (net : Net n) (i : Fin n) :
    netTxRoomSlot (netTxFlush now net) i = netTxRoomSlot net i := by
  have hsame := (netTxFlush_conns now net i).same
  rw [netTxRoomSlot, netTxRoomSlot, Conn.used, Conn.used, hsame]

/-- The loop over the keystrokes, up to its end or to Ctrl-D. -/
theorem drainLoop_steps (env : SshEnv) (now : BitVec 32) (i : Fin n) (todo : List (Fin n)) :
    ∀ (fuel : Nat) {w : Worker n}, w.hist.owner = some i → w.shared.cin.length < fuel →
      Steps env (.draining i todo) w (.looking i todo) (drainLoop env now i fuel w) ∧
        (drainLoop env now i fuel w).hist.owner = some i
  | 0, _, _, h => absurd h (Nat.not_lt_zero _)
  | fuel + 1, w, howner, hfuel => by
      rw [drainLoop]
      cases hcin : w.shared.cin with
      | nil =>
          have hget : sshChannelGetc w.shared = (none, w.shared) := by
            rw [sshChannelGetc, hcin]
          rw [hget]
          exact ⟨.one (.drained w i todo hcin), howner⟩
      | cons b cin =>
          have hget : sshChannelGetc w.shared = (some b, { w.shared with cin := cin }) := by
            rw [sshChannelGetc, hcin]
          rw [hget]
          dsimp only
          split
          next heof =>
            rw [Bool.and_eq_true, decide_eq_true_eq] at heof
            obtain ⟨heof, rfl⟩ := heof
            -- the close is staged on the ring and flushed
            have hturn : (hungUp env w i cin).Turned (.closing i todo) i := .inl rfl
            obtain ⟨hpump, hhist, hdone⟩ := sshPumpOutput_steps env (by exact howner) hturn
            have hflush := hpump.tail (.flush _ _ now)
            refine ⟨((Steps.one (.eof w i todo cin hcin heof)).trans hflush).tail
              (.closed _ i todo ?_), ?_⟩
            · rcases hdone with hob | hfull
              · exact .inl hob
              · exact .inr ((netTxFlush_room now _ i).trans hfull)
            · show (sshPumpOutput (hungUp env w i cin) i).hist.owner = some i
              rw [hhist]
              exact howner
          next heof =>
            have hb : (w.eofExit && decide (b = 0x04)) = false := Bool.eq_false_iff.mpr heof
            have hlen : (w.keyed i b cin).shared.cin.length < fuel := by
              rw [hcin, List.length_cons] at hfuel
              exact Nat.lt_of_succ_lt_succ hfuel
            obtain ⟨hsteps, hown⟩ := drainLoop_steps env now i todo fuel (w := w.keyed i b cin)
              howner hlen
            exact ⟨(Steps.one (.key w i todo b cin hcin hb)).trans hsteps, hown⟩

theorem sshLook_owner (now : BitVec 32) (w : Worker n) (i : Fin n) :
    (sshLook now w i).hist.owner = w.hist.owner := by
  unfold sshLook
  dsimp only
  repeat' split
  all_goals rfl

theorem serviceSlot_steps {t : Tick n} {w w' : Worker n} {i : Fin n} (todo : List (Fin n))
    (h : serviceSlot env t w i = some w') :
    Steps env (.between (i :: todo)) w (.between todo) w' := by
  unfold serviceSlot at h
  split at h
  next hact =>
    cases h
    exact .one (.skip w i todo (by simpa using hact))
  next hact =>
    split at h
    next hcon =>
      cases h
      exact .one (.lost w i todo (by simpa using hcon))
    next hcon =>
      dsimp only at h
      rw [Option.map_eq_some_iff] at h
      obtain ⟨w₁, hin, rfl⟩ := h
      have hserve : Step env (.between (i :: todo)) w (.reading i todo) (w.served i) :=
        .serve w i todo (by simpa using hact) (by simpa using hcon)
      obtain ⟨hinput, hhist⟩ := serviceInput_steps todo hin
      have howner : w₁.hist.owner = some i := by
        rw [hhist]
        rfl
      have hturn : w₁.Turned (.fed i todo) i := .inl rfl
      obtain ⟨hpump, hhist₂, hdone⟩ := sshPumpOutput_steps env howner hturn
      generalize sshPumpOutput w₁ i = w₂ at hpump hhist₂ hdone
      obtain ⟨hdrain, howner₃⟩ := drainLoop_steps env t.screen.ticks i todo
        (w₂.shared.cin.length + 1) (hhist₂ ▸ howner) (Nat.lt_succ_self _)
      generalize drainLoop env t.screen.ticks i (w₂.shared.cin.length + 1) w₂ = w₃
        at hdrain howner₃
      have hlook : Step env (.looking i todo) w₃ (.ending i todo) (sshLook t.screen.ticks w₃ i) :=
        .look w₃ i todo t.screen.ticks
      have howner₄ : (sshLook t.screen.ticks w₃ i).hist.owner = some i :=
        (sshLook_owner _ w₃ i).trans howner₃
      generalize sshLook t.screen.ticks w₃ i = w₄ at hlook howner₄
      have hwork : Steps env (.between (i :: todo)) w (.ending i todo) w₄ :=
        ((((Steps.one hserve).trans hinput).trans hpump).trans
          ((Steps.one (.pumped w₂ i todo hdone)).trans hdrain)).tail hlook
      unfold sshTeardown
      split
      next hdoomed =>
        have hturn : w₄.Turned (.ending i todo) i := .inl rfl
        obtain ⟨hpump, -, -⟩ := sshPumpOutput_steps env howner₄ hturn
        refine (hwork.trans hpump).tail (.teardown _ i todo ?_)
        have hsame := sshPumpOutput_slots i w₄
        rw [doomed, hsame]
        exact hdoomed
      next hdoomed => exact hwork.tail (.keep w₄ i todo (Bool.eq_false_iff.mpr hdoomed))

theorem serviceSlots_steps {t : Tick n} : ∀ (is : List (Fin n)) {w w' : Worker n},
    serviceSlots env t is w = some w' → Steps env (.between is) w (.between []) w'
  | [], w, w', h => by
      cases h
      exact .refl
  | i :: is, w, w', h => by
      rw [serviceSlots, Option.bind_eq_some_iff] at h
      obtain ⟨w₁, hslot, hrest⟩ := h
      exact (serviceSlot_steps is hslot).trans (serviceSlots_steps is hrest)

/-! ## The broadcast -/

/-- The first loop of a round evicts slots. -/
theorem capLoop_steps (env : SshEnv) : ∀ (is : List (Fin n)) (cap : Nat) (any : Bool)
    (w : Worker n), Steps env .casting w .casting (capLoop is cap any w).2.2
  | [], _, _, _ => .refl
  | i :: is, cap, any, w => by
      rw [capLoop_cons]
      split
      · exact (Steps.one (.evict w i)).trans (capLoop_steps env is _ _ _)
      · split
        · exact capLoop_steps env is _ _ w
        · exact capLoop_steps env is _ _ w

theorem tightest_le_cap (w : Worker n) : ∀ (is : List (Fin n)) (cap : Nat),
    w.tightest cap is ≤ cap
  | [], _ => le_rfl
  | _ :: is, _ => (tightest_le_cap w is _).trans (Nat.min_le_left _ _)

theorem sized_le_chunk (w : Worker n) : w.sized.1 ≤ SSH_CHAN_CHUNK := by
  have hfst := capLoop_fst (List.finRange n) SSH_CHAN_CHUNK false (List.nodup_finRange n)
    fun j _ => SameAt.refl w j
  unfold sized
  rw [hfst]
  exact w.tightest_le_cap _ _

/-- The size of the chunk suits every slot that takes part in the round. -/
theorem sized_le (w : Worker n) {i : Fin n} (h : w.sized.2.2.eligible i = true) :
    w.sized.1 ≤ w.sized.2.2.slotCap i := by
  have hfst := capLoop_fst (List.finRange n) SSH_CHAN_CHUNK false (List.nodup_finRange n)
    fun j _ => SameAt.refl w j
  have hev : w.evicts i = false := by
    by_contra hev
    have hdropped := capLoop_evicted (List.finRange n) SSH_CHAN_CHUNK false (List.mem_finRange i)
      (Bool.eq_true_of_not_eq_false hev)
    have hactive : w.sized.2.2.active i = false := hdropped.1
    simp [eligible, hactive] at h
  have hsame : SameAt w w.sized.2.2 i :=
    capLoop_same (List.finRange n) SSH_CHAN_CHUNK false (by simp [hev])
  have hmem : i ∈ (List.finRange n).filter fun j => w.eligible j && !w.evicts j := by
    simp [← hsame.eligible, h, hev]
  have hle := (@tightest_le n w i _ SSH_CHAN_CHUNK).1 hmem
  rw [← hsame.slotCap] at hle
  unfold sized at hle ⊢
  rw [hfst]
  exact hle

/-- Nothing was pulled because there was nothing to send. -/
theorem pullLoop_nil {s : Screen} {cap : Nat} {r r' : Render} (hpos : 0 < cap)
    (h : pullLoop s cap r = ([], r')) : renderNextByte false s r = (none, r') := by
  cases cap with
  | zero => cases hpos
  | succ cap =>
      rw [pullLoop] at h
      rcases hnext : renderNextByte false s r with ⟨_ | b, r₁⟩
      · rw [hnext] at h
        cases h
        rfl
      · rw [hnext] at h
        cases h

theorem broadcastLoop_steps (env : SshEnv) (s : Screen) : ∀ (fuel budget : Nat) (w : Worker n),
    Steps env .casting w .casting (broadcastLoop env s fuel budget w)
  | 0, _, _ => .refl
  | fuel + 1, budget, w => by
      have hcap := capLoop_steps env (List.finRange n) SSH_CHAN_CHUNK false w
      have hle := @sized_le n w
      have hchunk := w.sized_le_chunk
      rw [broadcastLoop]
      unfold sized at hle hchunk
      generalize capLoop (List.finRange n) SSH_CHAN_CHUNK false w = r at hcap hle hchunk
      dsimp only
      generalize hk : (if r.1 > budget then budget else r.1) = cap
      have hcapr : cap ≤ r.1 := by
        rw [← hk]
        split <;> omega
      split
      · exact hcap
      split
      · exact hcap
      split
      · exact hcap
      next hpos =>
        rcases hpull : pullLoop s cap r.2.2.render with ⟨data, render⟩
        dsimp only
        split
        next hnil =>
          subst hnil
          refine hcap.tail (.still r.2.2 s render ?_)
          exact pullLoop_nil (Nat.pos_of_ne_zero hpos) hpull
        next hne =>
          have hround := hcap.tail (.round r.2.2 s cap data render hpull hne (hcapr.trans hchunk)
            fun i hi => hcapr.trans (hle hi))
          split
          · exact hround
          · exact hround.trans (broadcastLoop_steps env s fuel _ _)

/-! ## Ticks and runs -/

theorem sshNetWorker_steps {t : Tick n} {w w' : Worker n} (h : sshNetWorker env t w = some w') :
    Steps env .idle w .idle w' := by
  unfold sshNetWorker at h
  dsimp only at h
  rw [Option.map_eq_some_iff] at h
  obtain ⟨w₁, hslots, rfl⟩ := h
  have hpoll : Steps env .idle w .joining { w with net := netPoll t.screen.ticks t.pkt w.net } :=
    .one (.poll w _ _)
  have hbegin := sshBeginLoop_steps env (n + 1)
    { w with net := netPoll t.screen.ticks t.pkt w.net }
  have hnone := sshBeginLoop_noneNew env (n + 1)
    { w with net := netPoll t.screen.ticks t.pkt w.net } (Nat.lt_succ_of_le (card_finset_fin_le _))
  have hserve := serviceSlots_steps (List.finRange n) hslots
  have hcast := broadcastLoop_steps env t.screen SSH_TX_BUDGET SSH_TX_BUDGET w₁
  have htick := (((hpoll.trans hbegin).tail (.joined _ hnone)).trans hserve).tail (.cast w₁)
  exact ((htick.trans hcast).tail (.flush _ _ t.screen.ticks)).tail (.done _)

theorem workerRun_steps : ∀ (ts : List (Tick n)) {w w' : Worker n},
    workerRun env ts w = some w' → Steps env .idle w .idle w'
  | [], w, w', h => by
      cases h
      exact .refl
  | t :: ts, w, w', h => by
      rw [workerRun, Option.bind_eq_some_iff] at h
      obtain ⟨w₁, htick, hrest⟩ := h
      exact (sshNetWorker_steps htick).trans (workerRun_steps ts hrest)

end Worker

/-- What holds at the start and is kept by the steps holds between ticks. -/
theorem WorkerReach.induct {env : SshEnv} {I : Phase n → Worker n → Prop}
    (hinit : ∀ gMac gIp myPort eofExit render,
      I .idle (workerInit gMac gIp myPort eofExit render))
    (hstep : ∀ {p w p' w'}, I p w → Worker.Step env p w p' w' → I p' w') {w : Worker n}
    (h : WorkerReach env w) : I .idle w := by
  obtain ⟨gMac, gIp, myPort, eofExit, render, ts, hrun⟩ := h
  exact (Worker.workerRun_steps ts hrun).preserves hstep (hinit gMac gIp myPort eofExit render)

end Dossh
