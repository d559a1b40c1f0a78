import Dossh.Ssh.AuthGate
import Dossh.Worker.Slots

/-!
# Whose keystrokes these are

All clients share the ring `g_cin`.  The drain loop of a slot empties it, but leaves early when it
meets Ctrl-D and `/EOF` is given, and what is behind the Ctrl-D stays in the ring until `ssh_reset`
or until the next slot is serviced.

As long as no slot is turned to while the ring holds bytes, the bytes that go to the key mapper
while a slot is serviced are the ones decrypted on its connection, up to its Ctrl-D.  Without `/EOF`
that never happens.
-/

namespace Dossh

open Ssh

variable {n : Nat}

/-! ## Closing a channel -/

/-- Frames hold no keystrokes. -/
theorem keysOf_frames {s s' : Ssh} (h : s.Logs SshEvent.isFrame s') :
    keysOf s'.c.trace = keysOf s.c.trace := by
  obtain ⟨es, htr, hes⟩ := h
  rw [htr]
  clear htr
  induction es with
  | nil => rfl
  | cons e es ih =>
      have he := hes e List.mem_cons_self
      rw [List.cons_append, keysOf_cons, ih fun e he => hes e (List.mem_cons_of_mem _ he)]
      cases e with
      | frame => exact List.append_nil _
      | _ => cases he

theorem sshChannelClose_keys (env : SshEnv) (s : Ssh) :
    keysOf (sshChannelClose env s).c.trace = keysOf s.c.trace ∧
      (sshChannelClose env s).g.cin = s.g.cin := by
  have hkeys := keysOf_frames (sshChannelClose_tame env s).logs
  have hacts : Ssh.Acts env True s (sshChannelClose env s) := sshChannelClose_acts env s
  obtain ⟨x, hcin, hx⟩ := (Records.acts hacts).cin
  rw [hkeys, List.self_eq_append_right] at hx
  rw [hx, List.append_nil] at hcin
  exact ⟨hkeys, hcin⟩

/-- An open channel is closed afterwards. -/
theorem sshChannelClose_closed (env : SshEnv) (s : Ssh) (hopen : s.c.chanOpen = true)
    (hsent : s.c.chanSentClose = true → s.c.chanClosed = true) :
    (sshChannelClose env s).c.chanClosed = true := by
  unfold sshChannelClose
  rw [hopen, Bool.not_true, Bool.false_or]
  split
  next h => exact hsent h
  next => rfl

/-! ## The invariant -/

/-- The slot whose keystrokes are in the ring. -/
def Phase.taking : Phase n → Option (Fin n)
  | .reading i _ | .fed i _ | .draining i _ => some i
  | _ => none

namespace Worker

/-- What was decrypted on the connection of the slot went to the key mapper, up to Ctrl-D. -/
def Told (w : Worker n) (i : Fin n) : Prop :=
  (w.hist.ended i = false ∧ keysOf (w.slots i).trace = w.hist.typed i) ∨
    w.hist.ended i = true ∧ ∃ rest, keysOf (w.slots i).trace = w.hist.typed i ++ 0x04 :: rest

/-- Whose keystrokes were passed on. -/
structure Owned (p : Phase n) (w : Worker n) : Prop where
  taking : ∀ i, p.taking = some i → w.hist.ended i = false ∧
    keysOf (w.slots i).trace = w.hist.typed i ++ w.shared.cin
  told : ∀ i, p.taking ≠ some i → Told w i
  going : ∀ i, w.active i = true → p.slot ≠ some i → w.hist.ended i = false
  hung : ∀ i, p.slot = some i → w.hist.ended i = true → (w.slots i).chanClosed = true

/-- What holds of the keystrokes. -/
structure Keyed (env : SshEnv) (p : Phase n) (w : Worker n) : Prop extends Sound env p w where
  plain : w.eofExit = false → w.hist.stale = false ∧ w.hist.unopened = false ∧
    (∀ i, w.hist.ended i = false) ∧ (p.taking = none → w.shared.cin = [])
  own : w.hist.stale = false → w.hist.unopened = false → Owned p w
  ctrl : w.eofExit = true → ∀ i, (0x04 : UInt8) ∉ w.hist.typed i

theorem Told.of_eq {w w' : Worker n} {i : Fin n} (h : Told w i)
    (hkeys : keysOf (w'.slots i).trace = keysOf (w.slots i).trace)
    (htyped : w'.hist.typed = w.hist.typed) (hended : w'.hist.ended = w.hist.ended) :
    Told w' i := by
  rw [Told, hkeys, htyped, hended]
  exact h

namespace Owned

variable {p p' : Phase n} {w w' : Worker n}

/-- A step that types nothing. -/
theorem of_eq (h : Owned p w)
    (hkeys : ∀ i, keysOf (w'.slots i).trace = keysOf (w.slots i).trace)
    (hclosed : ∀ i, (w.slots i).chanClosed = true → (w'.slots i).chanClosed = true)
    (htyped : w'.hist.typed = w.hist.typed) (hended : w'.hist.ended = w.hist.ended)
    (hcin : w'.shared.cin = w.shared.cin) (htaking : p'.taking = p.taking)
    (hgoing : ∀ i, w'.active i = true → p'.slot ≠ some i → w.hist.ended i = false)
    (hslot : ∀ i, p'.slot = some i → p.slot = some i) : Owned p' w' where
  taking i hi := by
    rw [hended, hkeys, htyped, hcin]
    exact h.taking i (htaking ▸ hi)
  told i hi := (h.told i (htaking ▸ hi)).of_eq (hkeys i) htyped hended
  going i hi hp := by
    rw [hended]
    exact hgoing i hi hp
  hung i hi he := hclosed i (h.hung i (hslot i hi) (hended ▸ he))

end Owned

namespace Keyed

variable {env : SshEnv} {p p' : Phase n} {w w' : Worker n}

/-- A step that types nothing. -/
theorem same (h : Keyed env p w) (hsound : Sound env p' w')
    (hkeys : ∀ i, keysOf (w'.slots i).trace = keysOf (w.slots i).trace)
    (hclosed : ∀ i, (w.slots i).chanClosed = true → (w'.slots i).chanClosed = true)
    (hhist : w'.hist = { w.hist with
      owner := w'.hist.owner, mixed := w'.hist.mixed, resets := w'.hist.resets
      readied := w'.hist.readied, mark := w'.hist.mark, rounds := w'.hist.rounds })
    (heof : w'.eofExit = w.eofExit) (hcin : w'.shared.cin = w.shared.cin)
    (htaking : p'.taking = p.taking) (hslot : ∀ i, p'.slot = some i → p.slot = some i)
    (hgoing : Owned p w → ∀ i, w'.active i = true → p'.slot ≠ some i → w.hist.ended i = false) :
    Keyed env p' w' where
  toSound := hsound
  plain hno := by
    obtain ⟨hstale, hopened, hended, hnil⟩ := h.plain (heof ▸ hno)
    rw [hhist, htaking, hcin]
    exact ⟨hstale, hopened, hended, hnil⟩
  own hstale hopened := by
    rw [hhist] at hstale hopened
    have howned := h.own hstale hopened
    exact howned.of_eq hkeys hclosed (by rw [hhist]) (by rw [hhist]) hcin htaking (hgoing howned)
      hslot
  ctrl hyes i := by
    rw [hhist]
    exact h.ctrl (heof ▸ hyes) i

/-- A step that leaves the connections and what was typed alone. -/
theorem stay (h : Keyed env p w) (hsound : Sound env p' w') (hslots : w'.slots = w.slots)
    (hhist : w'.hist = { w.hist with
      owner := w'.hist.owner, mixed := w'.hist.mixed, resets := w'.hist.resets
      readied := w'.hist.readied, mark := w'.hist.mark, rounds := w'.hist.rounds })
    (heof : w'.eofExit = w.eofExit) (hcin : w'.shared.cin = w.shared.cin)
    (hact : ∀ i, w'.active i = true → w.active i = true) (htaking : p'.taking = p.taking)
    (hslot : p'.slot = p.slot) : Keyed env p' w' :=
  h.same hsound (fun i => by rw [hslots]) (fun i => by rw [hslots]; exact id) hhist heof hcin htaking
    (fun _ hi => hslot ▸ hi) fun howned i hi hp => howned.going i (hact i hi) (hslot ▸ hp)

/-- A new connection has typed nothing. -/
theorem begun (h : Keyed env .joining w) (i : Fin n) :
    Keyed env .joining (Worker.begun env w i) := by
  have hsound := h.toSound.begun i
  obtain ⟨-, -, hcin, hkeys⟩ := sshReset_records env w.shared
  have hslots := begun_slots env w i
  have hshared := begun_shared env w i
  have hactive : (Worker.begun env w i).active = Function.update w.active i true := rfl
  have htyped : (Worker.begun env w i).hist.typed = Function.update w.hist.typed i [] := rfl
  have hended : (Worker.begun env w i).hist.ended = Function.update w.hist.ended i false := rfl
  have hstale : (Worker.begun env w i).hist.stale = w.hist.stale := rfl
  have hopened : (Worker.begun env w i).hist.unopened = w.hist.unopened := rfl
  have heof : (Worker.begun env w i).eofExit = w.eofExit := rfl
  generalize Worker.begun env w i = w₁ at *
  refine ⟨hsound, fun hno => ?_, fun hs ho => ?_, fun hyes j => ?_⟩
  · obtain ⟨hs, ho, he, -⟩ := h.plain (heof ▸ hno)
    refine ⟨hstale.trans hs, hopened.trans ho, fun j => ?_, fun _ => by rw [hshared, hcin]⟩
    by_cases hji : j = i
    · subst hji
      rw [hended, Function.update_self]
    · rw [hended, Function.update_of_ne hji]
      exact he j
  · have howned := h.own (hstale ▸ hs) (hopened ▸ ho)
    refine ⟨fun j hj => (by cases hj), fun j _ => ?_, fun j hj _ => ?_, fun j hj => (by cases hj)⟩
    · by_cases hji : j = i
      · subst hji
        left
        rw [hended, hslots, htyped, Function.update_self, Function.update_self,
          Function.update_self]
        exact ⟨rfl, hkeys⟩
      · have htold := howned.told j fun hj => by cases hj
        rw [Told, hended, hslots, htyped, Function.update_of_ne hji, Function.update_of_ne hji,
          Function.update_of_ne hji]
        exact htold
    · by_cases hji : j = i
      · subst hji
        rw [hended, Function.update_self]
      · rw [hactive, Function.update_of_ne hji] at hj
        rw [hended, Function.update_of_ne hji]
        exact howned.going j hj fun hj => by cases hj
  · by_cases hji : j = i
    · subst hji
      rw [htyped, Function.update_self]
      exact List.not_mem_nil
    · rw [htyped, Function.update_of_ne hji]
      exact h.ctrl (heof ▸ hyes) j

/-- The worker turns to a slot; the ring is empty, or is recorded to be not. -/
theorem served {i : Fin n} {todo : List (Fin n)} (h : Keyed env (.between (i :: todo)) w)
    (hactive : w.active i = true) (hsound : Sound env (.reading i todo) (w.served i)) :
    Keyed env (.reading i todo) (w.served i) where
  toSound := hsound
  plain hno := by
    obtain ⟨hstale, hopened, hended, hnil⟩ := h.plain hno
    refine ⟨?_, hopened, hended, fun htaking => (by cases htaking)⟩
    show (w.hist.stale || !w.shared.cin.isEmpty) = false
    rw [hstale, hnil rfl]
    rfl
  own hs hopened := by
    have hs : (w.hist.stale || !w.shared.cin.isEmpty) = false := hs
    rw [Bool.or_eq_false_iff, Bool.not_eq_false', List.isEmpty_iff] at hs
    obtain ⟨hstale, hnil⟩ := hs
    have howned := h.own hstale hopened
    have hfree : ∀ j, (Phase.between (i :: todo)).taking ≠ some j ∧
        (Phase.between (i :: todo)).slot ≠ some j := fun j =>
      ⟨fun hj => (by cases hj), fun hj => by cases hj⟩
    have hended := howned.going i hactive (hfree i).2
    refine ⟨fun j hj => ?_, fun j _ => howned.told j (hfree j).1,
      fun j hj _ => howned.going j hj (hfree j).2, fun j hj he => ?_⟩
    · cases hj
      rcases howned.told i (hfree i).1 with ⟨-, hkeys⟩ | ⟨he, -⟩
      · refine ⟨hended, ?_⟩
        show keysOf (w.slots i).trace = w.hist.typed i ++ w.shared.cin
        rw [hnil, List.append_nil, hkeys]
      · rw [hended] at he
        cases he
    · cases hj
      exact absurd (hended.symm.trans he) Bool.false_ne_true
  ctrl := h.ctrl

/-- `ssh_input` puts keystrokes of the slot into the ring. -/
theorem input {i : Fin n} {todo : List (Fin n)} (h : Keyed env (.reading i todo) w) {s : Ssh}
    (hsound : Sound env (.fed i todo) (w.setSsh i s)) (hrec : (w.ssh i).Records s) :
    Keyed env (.fed i todo) (w.setSsh i s) where
  toSound := hsound
  plain hno := by
    obtain ⟨hstale, hopened, hended, -⟩ := h.plain hno
    exact ⟨hstale, hopened, hended, fun htaking => (by cases htaking)⟩
  own hstale hopened := by
    have howned := h.own hstale hopened
    obtain ⟨x, hcin, hkeys⟩ := hrec.cin
    refine ⟨fun j hj => ?_, fun j hj => ?_, howned.going, fun j hj he => ?_⟩
    · cases hj
      obtain ⟨hended, hown⟩ := howned.taking i rfl
      refine ⟨hended, ?_⟩
      show keysOf (Function.update w.slots i s.c i).trace = w.hist.typed i ++ s.g.cin
      rw [Function.update_self, hkeys, hcin]
      show keysOf (w.slots i).trace ++ x = w.hist.typed i ++ (w.shared.cin ++ x)
      rw [hown, List.append_assoc]
    · have hji : j ≠ i := fun hji => hj (hji ▸ rfl)
      exact (howned.told j hj).of_eq
        (congrArg (fun c => keysOf c.trace) (Function.update_of_ne hji s.c w.slots)) rfl rfl
    · cases hj
      exact absurd ((howned.taking i rfl).1.symm.trans he) Bool.false_ne_true
  ctrl := h.ctrl

/-- A keystroke goes to the key mapper. -/
theorem keyed {i : Fin n} {todo : List (Fin n)} (h : Keyed env (.draining i todo) w) {b : UInt8}
    {cin : List UInt8} (hcin : w.shared.cin = b :: cin) (hb : (w.eofExit && b = 0x04) = false)
    (hsound : Sound env (.draining i todo) (w.keyed i b cin)) :
    Keyed env (.draining i todo) (w.keyed i b cin) where
  toSound := hsound
  plain hno := by
    obtain ⟨hstale, hopened, hended, -⟩ := h.plain hno
    exact ⟨hstale, hopened, hended, fun htaking => (by cases htaking)⟩
  own hstale hopened := by
    have howned := h.own hstale hopened
    refine ⟨fun j hj => ?_, fun j hj => ?_, howned.going, howned.hung⟩
    · cases hj
      obtain ⟨hended, hown⟩ := howned.taking i rfl
      refine ⟨hended, ?_⟩
      show keysOf (w.slots i).trace =
        Function.update w.hist.typed i (w.hist.typed i ++ [b]) i ++ cin
      rw [Function.update_self, hown, hcin, List.append_assoc]
      rfl
    · have hji : j ≠ i := fun hji => hj (hji ▸ rfl)
      have htold := howned.told j hj
      rw [Told]
      show (w.hist.ended j = false ∧ keysOf (w.slots j).trace =
        Function.update w.hist.typed i (w.hist.typed i ++ [b]) j) ∨ w.hist.ended j = true ∧
          ∃ rest, keysOf (w.slots j).trace =
            Function.update w.hist.typed i (w.hist.typed i ++ [b]) j ++ 0x04 :: rest
      rw [Function.update_of_ne hji]
      exact htold
  ctrl hyes j := by
    show (0x04 : UInt8) ∉ Function.update w.hist.typed i (w.hist.typed i ++ [b]) j
    by_cases hji : j = i
    · subst hji
      rw [Function.update_self, List.mem_append, List.mem_singleton, not_or]
      refine ⟨h.ctrl hyes j, fun hb' => ?_⟩
      have hyes : w.eofExit = true := hyes
      rw [← hb', hyes] at hb
      cases hb
    · rw [Function.update_of_ne hji]
      exact h.ctrl hyes j

/-- Ctrl-D closes the channel, and the slot has had its last keystroke. -/
theorem hungUp {i : Fin n} {todo : List (Fin n)} (h : Keyed env (.draining i todo) w)
    {cin : List UInt8} (hcin : w.shared.cin = 0x04 :: cin) (heof : w.eofExit = true)
    (hsound : Sound env (.closing i todo) (Worker.hungUp env w i cin)) :
    Keyed env (.closing i todo) (Worker.hungUp env w i cin) := by
  have hclose := sshChannelClose_keys env ⟨w.slots i, { w.shared with cin := cin }, []⟩
  have hclosed := sshChannelClose_closed env ⟨w.slots i, { w.shared with cin := cin }, []⟩
  have hslots : (Worker.hungUp env w i cin).slots = Function.update w.slots i
      (sshChannelClose env ⟨w.slots i, { w.shared with cin := cin }, []⟩).c := by
    unfold Worker.hungUp
    dsimp only [setSsh, Worker.ssh]
  have htyped : (Worker.hungUp env w i cin).hist.typed = w.hist.typed := rfl
  have hended : (Worker.hungUp env w i cin).hist.ended =
      Function.update w.hist.ended i true := rfl
  have hstale : (Worker.hungUp env w i cin).hist.stale = w.hist.stale := rfl
  have hopened : (Worker.hungUp env w i cin).hist.unopened =
      (w.hist.unopened || !(w.slots i).chanOpen) := rfl
  have heof' : (Worker.hungUp env w i cin).eofExit = true := heof
  have hactive : (Worker.hungUp env w i cin).active = w.active := rfl
  generalize Worker.hungUp env w i cin = w₁ at *
  generalize sshChannelClose env _ = s at hclose hclosed hslots
  refine ⟨hsound, fun hno => ?_, fun hs ho => ?_, fun _ => htyped ▸ h.ctrl heof⟩
  · rw [heof'] at hno
    cases hno
  · rw [hopened, Bool.or_eq_false_iff, Bool.not_eq_false'] at ho
    have howned := h.own (hstale ▸ hs) ho.1
    refine ⟨fun j hj => (by cases hj), fun j _ => ?_, fun j hj hp => ?_, fun j hj _ => ?_⟩
    · by_cases hji : j = i
      · subst hji
        right
        rw [hended, hslots, htyped, Function.update_self, Function.update_self]
        refine ⟨rfl, cin, hclose.1.trans ?_⟩
        rw [← hcin]
        exact (howned.taking j rfl).2
      · have htold := howned.told j fun hj => hji (by cases hj; rfl)
        rw [Told, hended, hslots, htyped, Function.update_of_ne hji, Function.update_of_ne hji]
        exact htold
    · have hji : j ≠ i := fun hji => hp (hji ▸ rfl)
      rw [hended, Function.update_of_ne hji]
      exact howned.going j (hactive ▸ hj) hp
    · cases hj
      rw [hslots, Function.update_self]
      exact hclosed ho.2 (h.closed i (h.turn i rfl))

/-- The ring is empty, and the slot has had all its keystrokes. -/
theorem drained {i : Fin n} {todo : List (Fin n)} (h : Keyed env (.draining i todo) w)
    (hcin : w.shared.cin = []) (hsound : Sound env (.looking i todo) w) :
    Keyed env (.looking i todo) w where
  toSound := hsound
  plain hno := by
    obtain ⟨hstale, hopened, hended, -⟩ := h.plain hno
    exact ⟨hstale, hopened, hended, fun _ => hcin⟩
  own hstale hopened := by
    have howned := h.own hstale hopened
    refine ⟨fun j hj => (by cases hj), fun j _ => ?_, howned.going, howned.hung⟩
    by_cases hji : j = i
    · subst hji
      obtain ⟨hended, hown⟩ := howned.taking j rfl
      rw [hcin, List.append_nil] at hown
      exact .inl ⟨hended, hown⟩
    · exact howned.told j fun hj => hji (by cases hj; rfl)
  ctrl := h.ctrl

/-- A round of the broadcast types nothing. -/
theorem casts (h : Keyed env .casting w) (hsound : Sound env .casting w') {data : List UInt8}
    {r : Render} (hcast : Casts env data { w with render := r } w') : Keyed env .casting w' := by
  have hslot : ∀ j, keysOf (w'.slots j).trace = keysOf (w.slots j).trace ∧
      ((w.slots j).chanClosed = true → (w'.slots j).chanClosed = true) := by
    intro j
    cases hel : ({ w with render := r } : Worker n).eligible j with
    | true =>
        obtain ⟨⟨wire, hc, -⟩, -⟩ := hcast.takes j hel
        rw [hc]
        refine ⟨?_, id⟩
        show keysOf (.frame true _ _ wire :: (w.slots j).trace) = _
        rw [keysOf_cons]
        exact List.append_nil _
    | false =>
        rw [(hcast.keeps j hel).slot]
        exact ⟨rfl, id⟩
  refine h.same hsound (fun j => (hslot j).1) (fun j => (hslot j).2) ?_ hcast.aside.eofExit
    (by rw [hcast.aside.shared]) rfl (fun j hj => by cases hj) fun howned j hj _ => ?_
  · rw [hcast.aside.hist]
  · exact howned.going j (hcast.aside.active ▸ hj) fun hp => by cases hp

/-- The slot was torn down or its connection is gone. -/
theorem dropped (h : Keyed env p w) (i : Fin n) (hsound : Sound env p' w')
    (hslots : w'.slots = w.slots) (hhist : w'.hist = w.hist) (heof : w'.eofExit = w.eofExit)
    (hcin : w'.shared.cin = w.shared.cin) (hact : w'.active = Function.update w.active i false)
    (htaking : p'.taking = p.taking) (hslot : p'.slot = none)
    (hp : ∀ j, j ≠ i → p.slot ≠ some j) : Keyed env p' w' := by
  refine h.same hsound (fun j => by rw [hslots]) (fun j => by rw [hslots]; exact id)
    (by rw [hhist]) heof hcin htaking (fun j hj => by rw [hslot] at hj; cases hj)
    fun howned j hj _ => ?_
  have hji : j ≠ i := by
    rintro rfl
    rw [hact, Function.update_self] at hj
    cases hj
  rw [hact, Function.update_of_ne hji] at hj
  exact howned.going j hj (hp j hji)

/-- Every step keeps the invariant. -/
theorem step (h : Keyed env p w) (hstep : Step env p w p' w') : Keyed env p' w' := by
  have hsound := h.toSound.step hstep
  cases hstep with
  | poll _ now pkt => exact h.stay hsound rfl rfl rfl rfl (fun _ => id) rfl rfl
  | begin _ i net htake =>
      have htaken : Keyed env .joining { w with net := net } := by
        have hnet : NetReach net := by
          have hcall := h.net.step .takeNew
          rw [NetOp.run, htake] at hcall
          exact hcall
        exact h.stay (h.toSound.same hnet rfl rfl (fun _ => id) (Phase.noTurn rfl) rfl) rfl rfl rfl
          rfl (fun _ => id) rfl rfl
      exact htaken.begun i
  | joined _ hnone => exact h.stay hsound rfl rfl rfl rfl (fun _ => id) rfl rfl
  | skip _ i todo hact => exact h.stay hsound rfl rfl rfl rfl (fun _ => id) rfl rfl
  | lost _ i todo hcon =>
      exact h.dropped i hsound rfl rfl rfl rfl rfl rfl rfl fun _ _ hj => by cases hj
  | serve _ i todo hact hcon => exact h.served hact hsound
  | getc _ i todo => exact h.stay hsound rfl rfl rfl rfl (fun _ => id) rfl rfl
  | quiet _ i todo => exact h.stay hsound rfl rfl rfl rfl (fun _ => id) rfl rfl
  | input _ i todo data beyond fuel s hin =>
      have hrun : (sshInput env beyond fuel (w.ssh i) data).state? = some s := by
        rw [hin]
        rfl
      exact h.input hsound (sshInput_records hrun)
  | pumped _ i todo hdone => exact h.stay hsound rfl rfl rfl rfl (fun _ => id) rfl rfl
  | key _ i todo b cin hcin hb => exact h.keyed hcin hb hsound
  | drained _ i todo hcin => exact h.drained hcin hsound
  | eof _ i todo cin hcin heof => exact h.hungUp hcin heof hsound
  | closed _ i todo hdone => exact h.stay hsound rfl rfl rfl rfl (fun _ => id) rfl rfl
  | look _ i todo now =>
      have hglance := sshLook_glances now w i
      refine h.stay hsound hglance.slots ?_ hglance.eofExit (by rw [hglance.shared])
        (fun j hj => hglance.active ▸ hj) rfl rfl
      rw [hglance.hist]
  | keep _ i todo hkeep =>
      refine h.same hsound (fun _ => rfl) (fun _ => id) rfl rfl rfl rfl
        (fun j hj => by cases hj) fun howned j hj _ => ?_
      by_cases hji : j = i
      · subst hji
        rw [doomed, Bool.or_eq_false_iff, Bool.or_eq_false_iff] at hkeep
        by_contra he
        have hclosed := howned.hung j rfl (by simpa using he)
        rw [hkeep.1.1] at hclosed
        cases hclosed
      · exact howned.going j hj fun hp => hji (by cases hp; rfl)
  | teardown _ i todo hdoomed =>
      refine h.dropped i hsound rfl rfl rfl rfl rfl rfl rfl fun j hji hj => ?_
      cases hj
      exact hji rfl
  | cast => exact h.stay hsound rfl rfl rfl rfl (fun _ => id) rfl rfl
  | evict _ i =>
      exact h.dropped i hsound rfl rfl rfl rfl rfl rfl rfl fun _ _ hj => by cases hj
  | still _ s r hnone => exact h.stay hsound rfl rfl rfl rfl (fun _ => id) rfl rfl
  | round _ s cap data r hpull hne hcap hfit =>
      exact h.casts hsound (h.toSound.round_casts hpull hne hcap hfit)
  | done => exact h.stay hsound rfl rfl rfl rfl (fun _ => id) rfl rfl
  | output _ _ i max howner hturn hmax => exact h.stay hsound rfl rfl rfl rfl (fun _ => id) rfl rfl
  | flush _ _ now => exact h.stay hsound rfl rfl rfl rfl (fun _ => id) rfl rfl

end Keyed

end Worker

theorem WorkerReach.keyed {env : SshEnv} {w : Worker n} (h : WorkerReach env w) :
    Worker.Keyed env .idle w := by
  refine h.induct (fun gMac gIp myPort eofExit render => ?_) Worker.Keyed.step
  refine ⟨WorkerReach.sound ⟨gMac, gIp, myPort, eofExit, render, [], rfl⟩,
    fun _ => ⟨rfl, rfl, fun _ => rfl, fun _ => rfl⟩, fun _ _ => ⟨fun i hi => ?_,
      fun i _ => .inl ⟨rfl, rfl⟩, fun i _ _ => rfl, fun i hi => ?_⟩, fun _ i => List.not_mem_nil⟩
  all_goals cases hi

end Dossh
