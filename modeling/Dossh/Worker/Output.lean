import Dossh.Worker.Console

/-!
# The output of the SSH clients

What is framed for a client goes through `g_ob`, which all slots share, or, if it is screen data,
straight to the ring of the slot.  The ring of a slot gets what was framed for this slot, in order
and from the first byte on, as long as the worker never turned to a slot while `g_ob` held bytes of
another and `ob_append` dropped nothing (`Worker.Delivers`).

Two things have to be seen.  The session on a slot is that of the connection that is established
there (`Seat`).  And screen data does not overtake what is left in `g_ob`: something is left only
if the ring is full, and then the slot has no part in the broadcast.
-/

namespace Dossh

variable {n : Nat}

/-! ## The session on a slot -/

/-- The connection is as it was for those who look at its state, or it was given back. -/
structure Conn.Kept (c c' : Conn) : Prop where
  gen : c'.gen = c.gen
  just : c'.justEstab = c.justEstab
  state : c'.tstate = c.tstate ∨ c'.tstate = .listen

namespace Conn.Kept

variable {c c' : Conn}

theorem refl (c : Conn) : c.Kept c := ⟨rfl, rfl, .inl rfl⟩

theorem of_stays (h : c.Stays c') : c.Kept c' :=
  ⟨h.gen, h.just, h.state.imp (fun hs => hs.1) fun hs => hs.1⟩

theorem of_life (h : c'.life = c.life) : c.Kept c' :=
  ⟨congrArg (fun l => l.2.1) h, congrArg (fun l => l.2.2.1) h, .inl (congrArg (fun l => l.1) h)⟩

theorem settled (h : c.Kept c') (hc : c.Settled) : c'.Settled := by
  intro hnew
  rw [h.just] at hnew
  rcases h.state with hst | hst
  · rw [hst]
    exact hc hnew
  · rw [hst]
    exact fun hsyn => by cases hsyn

end Conn.Kept

/-- The connection of a slot, the streams of the connections there, and whether a session is in use
and for which connection it began.  Nothing is sent before the session begins. -/
structure Seat (c : Conn) (S : Nat → List UInt8) (act : Bool) (sess : Nat) : Prop where
  old : ∀ g, c.gen < g → S g = []
  fresh : c.tstate = .synrcvd ∨ c.justEstab = true → S c.gen = []
  past : act = true → sess ≤ c.gen
  begun : act = true → sess = c.gen → c.tstate ≠ .synrcvd ∧ c.justEstab = false
  live : act = true → c.tstate = .estab → c.justEstab = false → sess = c.gen

namespace Seat

variable {c c' : Conn} {S S' : Nat → List UInt8} {act act' : Bool} {sess sess' : Nat}

theorem kept (h : Seat c S act sess) (hc : c.Kept c') : Seat c' S act sess := by
  obtain ⟨hgen, hjust, hst⟩ := hc
  refine ⟨fun g hg => h.old g (hgen ▸ hg), fun hnew => ?_, fun ha => ?_, fun ha hs => ?_,
    fun ha hestab hold => ?_⟩
  · rw [hgen]
    rw [hjust] at hnew
    refine h.fresh (hnew.imp_left fun hsyn => ?_)
    rcases hst with hst | hst
    · exact hst.symm.trans hsyn
    · rw [hst] at hsyn
      cases hsyn
  · rw [hgen]
    exact h.past ha
  · rw [hgen] at hs
    obtain ⟨hsyn, hold⟩ := h.begun ha hs
    refine ⟨?_, hjust.trans hold⟩
    rcases hst with hst | hst
    · rw [hst]
      exact hsyn
    · rw [hst]
      exact fun hsyn => by cases hsyn
  · rw [hgen]
    rcases hst with hst | hst
    · exact h.live ha (hst.symm.trans hestab) (hjust.symm.trans hold)
    · rw [hst] at hestab
      cases hestab

theorem lifeStep (h : Seat c S act sess) (hc : c.LifeStep c') : Seat c' S act sess := by
  cases hc with
  | stays hc => exact h.kept (.of_stays hc)
  | stored hst hst' hgen hjust => exact h.kept ⟨hgen, hjust, .inl (hst'.trans hst.symm)⟩
  | syn hst hgen hring =>
      refine ⟨fun g hg => h.old g (by omega), fun _ => ?_, fun ha => ?_, fun ha hs => ?_,
        fun ha hestab => ?_⟩
      · rw [hgen]
        exact h.old _ (Nat.lt_succ_self _)
      · rw [hgen]
        exact (h.past ha).trans (Nat.le_succ _)
      · have hle := h.past ha
        omega
      · rw [hst] at hestab
        cases hestab
  | estab hst hst' hgen hjust =>
      refine ⟨fun g hg => h.old g (hgen ▸ hg), fun _ => ?_, fun ha => ?_, fun ha hs => ?_,
        fun ha _ hold => ?_⟩
      · rw [hgen]
        exact h.fresh (.inl hst)
      · rw [hgen]
        exact h.past ha
      · rw [hgen] at hs
        exact absurd hst (h.begun ha hs).1
      · rw [hjust] at hold
        cases hold

theorem lives (h : Seat c S act sess) (hc : c.Lives c') : Seat c' S act sess := by
  induction hc with
  | refl => exact h
  | tail _ hstep ih => exact ih.lifeStep hstep

theorem left (h : Seat c S act sess) (hact : act' = true → act = true) : Seat c S act' sess :=
  ⟨h.old, h.fresh, fun ha => h.past (hact ha), fun ha => h.begun (hact ha),
    fun ha => h.live (hact ha)⟩

/-- A session begins for a connection that waits. -/
theorem began (h : Seat c S act sess) (hsettled : c.Settled) (hnew : c.justEstab = true) :
    Seat { c with justEstab := false } S true c.gen :=
  ⟨h.old, fun _ => h.fresh (.inr hnew), fun _ => le_rfl, fun _ _ => ⟨hsettled hnew, rfl⟩,
    fun _ _ _ => rfl⟩

/-- Bytes of the session go to the ring. -/
theorem queued (h : Seat c S act sess) (ha : act = true) (hsess : sess = c.gen) {bs : List UInt8}
    (hS : ∀ g, S' g = S g ++ if g = c.gen then bs else []) : Seat c S' act sess := by
  obtain ⟨hsyn, hold⟩ := h.begun ha hsess
  refine ⟨fun g hg => ?_, fun hnew => ?_, h.past, h.begun, h.live⟩
  · rw [hS, if_neg (Nat.ne_of_gt hg), List.append_nil]
    exact h.old g hg
  · rw [hold] at hnew
    exact absurd (hnew.resolve_right Bool.false_ne_true) hsyn

end Seat

/-! ## The invariant -/

/-- `ssh_pump_output` has been called for the slot in this tick, and nothing was framed since. -/
def Phase.pumped : Phase n → Fin n → Prop
  | .idle, _ | .joining, _ | .reading .., _ | .fed .., _ | .closing .., _ => False
  | .between todo, j => j ∉ todo
  | .draining .., _ | .looking .., _ | .ending .., _ | .casting, _ => True

namespace Worker

/-- What is left in `g_ob` for the slot. -/
def left (w : Worker n) (i : Fin n) : List UInt8 :=
  if w.hist.owner = some i then w.shared.ob else []

/-- The ring of a slot got what was framed for the slot, up to what is left in `g_ob`. -/
structure Delivers (env : SshEnv) (p : Phase n) (w : Worker n) : Prop extends Shown env p w where
  none_new : p ≠ .joining → w.net.NoneNew
  settled : ∀ i, (w.net.conns i).Settled
  seats : ∀ i, Seat (w.net.conns i) (fun g => streamOf i g w.net.log) (w.active i) (w.hist.sess i)
  turned : ∀ i, p.slot = some i → w.hist.owner = some i
  drained : ∀ i, w.active i = true → w.hist.owner = some i → p.pumped i → w.Pumped i
  wire : w.hist.mixed = false → w.shared.overflow = false → ∀ i, w.active i = true →
    streamOf i (w.hist.sess i) w.net.log ++ w.left i = wireOf (w.slots i).trace

theorem left_owner {w : Worker n} {i : Fin n} (h : w.hist.owner = some i) :
    w.left i = w.shared.ob := if_pos h

theorem left_other {w : Worker n} {i j : Fin n} (h : w.hist.owner = some i) (hj : j ≠ i) :
    w.left j = [] := by
  refine if_neg ?_
  rw [h]
  exact fun heq => hj (Option.some.inj heq).symm

/-- The worker turns to a slot with `g_ob` empty or holding bytes of this slot. -/
theorem left_enter {w : Worker n} {i : Fin n} (h : (w.enter i).hist.mixed = false) :
    w.hist.mixed = false ∧ ∀ j, (w.enter i).left j = w.left j := by
  simp only [enter, Bool.or_eq_false_iff, Bool.and_eq_false_iff, Bool.not_eq_false',
    List.isEmpty_iff, decide_eq_false_iff_not, not_not] at h
  obtain ⟨hmixed, hob | howner⟩ := h
  · refine ⟨hmixed, fun j => ?_⟩
    show (if some i = some j then w.shared.ob else []) = if w.hist.owner = some j then w.shared.ob
      else []
    rw [hob, ite_self, ite_self]
  · refine ⟨hmixed, fun j => ?_⟩
    show (if some i = some j then w.shared.ob else []) = if w.hist.owner = some j then w.shared.ob
      else []
    rw [howner]

theorem Pumped.same {w w' : Worker n} {i : Fin n} (h : w.Pumped i)
    (hob : w'.shared.ob = w.shared.ob) (hroom : netTxRoomSlot w'.net i = netTxRoomSlot w.net i) :
    w'.Pumped i :=
  h.imp hob.trans hroom.trans

namespace Delivers

variable {env : SshEnv} {p p' : Phase n} {w w' : Worker n}

/-- A step that frames nothing and queues nothing. -/
theorem same (h : Delivers env p w) (hshown : Shown env p' w')
    (hkept : ∀ i, (w.net.conns i).Kept (w'.net.conns i)) (hmute : w.net.Mute w'.net)
    (hact : ∀ i, w'.active i = true → w.active i = true) (hslots : w'.slots = w.slots)
    (hshared : w'.shared.ob = w.shared.ob ∧ w'.shared.overflow = w.shared.overflow)
    (hhist : w'.hist.sess = w.hist.sess ∧ w'.hist.owner = w.hist.owner ∧
      w'.hist.mixed = w.hist.mixed)
    (hnone : p' ≠ .joining → p ≠ .joining) (hturned : ∀ i, p'.slot = some i → p.slot = some i)
    (hdrained : ∀ i, w'.active i = true → w'.hist.owner = some i → p'.pumped i → w'.Pumped i) :
    Delivers env p' w' := by
  obtain ⟨hob, hov⟩ := hshared
  obtain ⟨hsess, howner, hmixed⟩ := hhist
  have hlog : ∀ i, (fun g => streamOf i g w'.net.log) = fun g => streamOf i g w.net.log :=
    fun i => funext (hmute.logSame i).stream
  refine ⟨hshown, fun hp j => (hkept j).just.trans (h.none_new (hnone hp) j),
    fun i => (hkept i).settled (h.settled i), fun i => ?_, fun i hi => ?_, hdrained,
    fun hm ho i hi => ?_⟩
  · rw [hlog, hsess]
    exact ((h.seats i).kept (hkept i)).left (hact i)
  · rw [howner]
    exact h.turned i (hturned i hi)
  · rw [hmixed] at hm
    rw [hov] at ho
    rw [left, hsess, howner, hob, hslots, (hmute.logSame i).stream]
    exact h.wire hm ho i (hact i hi)

/-- A step of the service of a slot that changes neither the stack nor what is queued. -/
theorem service (h : Delivers env p w) (hshown : Shown env p' w') (hnet : w'.net = w.net)
    (hactive : w'.active = w.active) (hslots : w'.slots = w.slots)
    (hshared : w'.shared.ob = w.shared.ob ∧ w'.shared.overflow = w.shared.overflow)
    (hhist : w'.hist.sess = w.hist.sess ∧ w'.hist.owner = w.hist.owner ∧
      w'.hist.mixed = w.hist.mixed)
    (hnone : p' ≠ .joining → p ≠ .joining) (hturned : ∀ i, p'.slot = some i → p.slot = some i)
    (hpumped : ∀ i, w.active i = true → w.hist.owner = some i → p'.pumped i → w.Pumped i) :
    Delivers env p' w' := by
  refine h.same hshown (fun i => ?_) (.of_log (by rw [hnet])) (fun i hi => hactive ▸ hi) hslots
    hshared hhist hnone hturned fun i hi ho hp => ?_
  · rw [hnet]
    exact .refl _
  · rw [hactive] at hi
    rw [hhist.2.1] at ho
    exact (hpumped i hi ho hp).same hshared.1 (by rw [hnet])

/-- The session of the slot that is serviced is that of its connection. -/
theorem session (h : Delivers env p w) {i : Fin n} (hp : p.slot = some i) :
    w.hist.sess i = (w.net.conns i).gen := by
  have hjoin : p ≠ .joining := by
    rintro rfl
    cases hp
  exact (h.seats i).live (h.turn i hp) (h.serving i hp) (h.none_new hjoin i)

/-- A call on the connection of the slot that is serviced. -/
theorem call (h : Delivers env p w) {i : Fin n} (hp : p.slot = some i) {s : Ssh}
    (hshown : Shown env p' (w.setSsh i s)) (hrec : (w.ssh i).Records s)
    (hp' : p'.slot = some i) (hno : ∀ j, ¬ p'.pumped j) : Delivers env p' (w.setSsh i s) := by
  have howner := h.turned i hp
  have hjoin : p ≠ .joining := by
    rintro rfl
    cases hp
  refine ⟨hshown, fun _ => h.none_new hjoin, h.settled, h.seats, fun j hj => ?_,
    fun j _ _ hd => absurd hd (hno j), fun hm ho j hj => ?_⟩
  · rw [hp'] at hj
    cases hj
    exact howner
  · have hov : w.shared.overflow = false := by
      by_contra hov
      have hstill := hrec.overflow (Bool.eq_true_of_not_eq_false hov)
      exact absurd (ho.symm.trans hstill) Bool.false_ne_true
    obtain ⟨x, hob, htrace⟩ := hrec.ob ho
    have hwire := h.wire hm hov j hj
    by_cases hji : j = i
    · subst hji
      show streamOf j (w.hist.sess j) w.net.log ++ (w.setSsh j s).left j =
        wireOf (Function.update w.slots j s.c j).trace
      rw [left_owner (w := w.setSsh j s) howner, Function.update_self, htrace]
      rw [left_owner howner] at hwire
      show streamOf j (w.hist.sess j) w.net.log ++ s.g.ob = _
      rw [hob, ← List.append_assoc]
      exact congrArg (· ++ x) hwire
    · show streamOf j (w.hist.sess j) w.net.log ++ (w.setSsh i s).left j =
        wireOf (Function.update w.slots i s.c j).trace
      rw [left_other (w := w.setSsh i s) howner hji, Function.update_of_ne hji]
      rw [left_other howner hji] at hwire
      exact hwire

/-- A session begins. -/
theorem begun (h : Delivers env .joining w) {i : Fin n} (hnew : (w.net.conns i).justEstab = true)
    (hshown : Shown env .joining (Worker.begun env { w with
      net := w.net.set i { w.net.conns i with justEstab := false } } i)) :
    Delivers env .joining (Worker.begun env { w with
      net := w.net.set i { w.net.conns i with justEstab := false } } i) := by
  obtain ⟨hov, hob, -⟩ := sshReset_records env w.shared
  generalize hwith : ({ w with
    net := w.net.set i { w.net.conns i with justEstab := false } } : Worker n) = v at hshown ⊢
  have hconns : ∀ j, v.net.conns j =
      if j = i then { w.net.conns i with justEstab := false } else w.net.conns j := by
    rw [← hwith]
    exact fun j => Net.set_conns w.net i j _
  have hrest : v.net.log = w.net.log ∧ v.active = w.active ∧ v.hist = w.hist ∧
      v.shared = w.shared ∧ v.slots = w.slots := by
    rw [← hwith]
    exact ⟨rfl, rfl, rfl, rfl, rfl⟩
  obtain ⟨hlog, hact, hhist, hshared, hslots⟩ := hrest
  have hself : v.net.conns i = { w.net.conns i with justEstab := false } := by
    rw [hconns, if_pos rfl]
  have hother : ∀ j, j ≠ i → v.net.conns j = w.net.conns j := fun j hj => by
    rw [hconns, if_neg hj]
  have hbslots := begun_slots env v i
  have hbshared := begun_shared env v i
  have hbnet : (Worker.begun env v i).net = v.net := rfl
  have hbact : (Worker.begun env v i).active = Function.update v.active i true := rfl
  have hbsess : (Worker.begun env v i).hist.sess =
      Function.update v.hist.sess i (v.net.conns i).gen := rfl
  have hbowner : (Worker.begun env v i).hist.owner = some i := rfl
  have hbmixed : (Worker.begun env v i).hist.mixed = (v.enter i).hist.mixed := rfl
  rw [hshared] at hbslots hbshared
  rw [hact] at hbact
  rw [hhist, hself] at hbsess
  have henter : (v.enter i).hist.mixed = (w.enter i).hist.mixed := by
    simp only [enter, hhist, hshared]
  rw [henter] at hbmixed
  generalize Worker.begun env v i = w' at *
  generalize sshReset env w.shared = s at *
  refine ⟨hshown, fun hp => absurd rfl hp, fun j => ?_, fun j => ?_, Phase.noTurn rfl,
    fun j _ _ hd => hd.elim, fun hm ho j hj => ?_⟩
  · rw [hbnet]
    by_cases hji : j = i
    · subst hji
      rw [hself]
      exact .of_old rfl
    · rw [hother j hji]
      exact h.settled j
  · rw [hbnet, hbact, hbsess, hlog]
    by_cases hji : j = i
    · subst hji
      rw [hself, Function.update_self, Function.update_self]
      exact (h.seats j).began (h.settled j) hnew
    · rw [hother j hji, Function.update_of_ne hji, Function.update_of_ne hji]
      exact h.seats j
  · rw [hbmixed] at hm
    obtain ⟨hmixed, hleft⟩ := left_enter hm
    rw [hbshared] at ho
    rw [hbnet, hlog, hbslots, hbsess]
    by_cases hji : j = i
    · subst hji
      rw [Function.update_self, Function.update_self, left_owner hbowner, hbshared]
      have hnone := (h.seats j).fresh (.inr hnew)
      dsimp only at hnone ⊢
      rw [hnone, List.nil_append]
      exact hob ho
    · have hw : w.shared.overflow = false := by
        by_contra hw
        have hstill := hov (Bool.eq_true_of_not_eq_false hw)
        exact absurd (ho.symm.trans hstill) Bool.false_ne_true
      have hnone : w.left j = [] := by
        rw [← hleft j]
        exact left_other (w := w.enter i) (i := i) rfl hji
      rw [hbact, Function.update_of_ne hji] at hj
      have hwire := h.wire hmixed hw j hj
      rw [Function.update_of_ne hji, Function.update_of_ne hji, left_other hbowner hji, hslots]
      rw [hnone] at hwire
      exact hwire

/-- The worker turns to a slot. -/
theorem served (h : Delivers env p w) (hjoin : p ≠ .joining) {i : Fin n}
    (hshown : Shown env p' (w.served i)) (hp' : p'.slot = some i) (hno : ∀ j, ¬ p'.pumped j) :
    Delivers env p' (w.served i) := by
  refine ⟨hshown, fun _ => h.none_new hjoin, h.settled, h.seats, fun j hj => ?_,
    fun j _ _ hd => absurd hd (hno j), fun hm ho j hj => ?_⟩
  · rw [hp'] at hj
    cases hj
    rfl
  · obtain ⟨hmixed, hleft⟩ := left_enter hm
    have hwire := h.wire hmixed ho j hj
    rw [← hleft j] at hwire
    exact hwire

/-- Looking at a slot sends nothing. -/
theorem glances (h : Delivers env p w) (hg : Glances w w') (hshown : Shown env p' w')
    (hnone : p' ≠ .joining → p ≠ .joining) (hturned : ∀ i, p'.slot = some i → p.slot = some i)
    (hpumped : ∀ i, w.active i = true → w.hist.owner = some i → p'.pumped i → w.Pumped i) :
    Delivers env p' w' := by
  refine h.service hshown hg.net hg.active hg.slots ?_ ?_ hnone hturned hpumped
  · rw [hg.shared]
    exact ⟨rfl, rfl⟩
  · rw [hg.hist]
    exact ⟨rfl, rfl, rfl⟩

/-- A slot is given up. -/
theorem dropped (h : Delivers env p w) (i : Fin n) (hshown : Shown env p' (w.evict i))
    (hnone : p' ≠ .joining → p ≠ .joining) (hp' : p'.slot = none)
    (hpumped : ∀ j, w.active j = true → w.hist.owner = some j → j ≠ i → p'.pumped j → w.Pumped j) :
    Delivers env p' (w.evict i) := by
  have hleft : ∀ j, (w.evict i).active j = true → w.active j = true ∧ j ≠ i := by
    intro j hj
    have hji : j ≠ i := by
      rintro rfl
      rw [(w.evict_self j).1] at hj
      cases hj
    rw [(w.evict_same hji).active] at hj
    exact ⟨hj, hji⟩
  refine h.same hshown (fun j => .of_stays (netSlotDrop_stays w.net i j))
    (netSlotDrop_mute w.net i) (fun j hj => (hleft j hj).1) rfl ⟨rfl, rfl⟩ ⟨rfl, rfl, rfl⟩ hnone
    (Phase.noTurn hp') fun j hj ho hd => ?_
  obtain ⟨hj, hji⟩ := hleft j hj
  refine (hpumped j hj ho hji hd).same rfl ?_
  rw [netTxRoomSlot, netTxRoomSlot, (w.evict_same hji).conn]

/-- A slot is torn down, and what is left for it is discarded. -/
theorem torn {i : Fin n} {todo : List (Fin n)} (h : Delivers env (.ending i todo) w)
    (hshown : Shown env (.between todo) (w.torn i)) : Delivers env (.between todo) (w.torn i) := by
  have howner := h.turned i rfl
  have hnone : w.net.NoneNew := h.none_new fun hp => by cases hp
  have hkept : ∀ j, (w.net.conns j).Kept ((netSlotDrop w.net i).conns j) :=
    fun j => .of_stays (netSlotDrop_stays w.net i j)
  have hsame : ∀ j g, streamOf j g (netSlotDrop w.net i).log = streamOf j g w.net.log :=
    fun j => ((netSlotDrop_mute w.net i).logSame j).stream
  have hleft : ∀ j, (w.torn i).active j = true → w.active j = true ∧ j ≠ i := by
    intro j hj
    have hji : j ≠ i := by
      rintro rfl
      exact absurd ((Function.update_self j _ _).symm.trans hj) Bool.false_ne_true
    exact ⟨(Function.update_of_ne hji _ _).symm.trans hj, hji⟩
  refine ⟨hshown, fun _ j => (hkept j).just.trans (hnone j),
    fun j => (hkept j).settled (h.settled j), fun j => ?_, Phase.noTurn rfl,
    fun _ _ _ _ => .inl rfl, fun hm ho j hj => ?_⟩
  · have hseat := ((h.seats j).kept (hkept j)).left fun hj => (hleft j hj).1
    rw [← funext (hsame j)] at hseat
    exact hseat
  · obtain ⟨hj, hji⟩ := hleft j hj
    have hwire := h.wire hm ho j hj
    rw [left_other howner hji, ← hsame] at hwire
    rw [left_other (w := w.torn i) howner hji]
    exact hwire

/-- Bytes of `g_ob` go to the ring of the slot for which they were framed. -/
theorem output (h : Delivers env p w) {i : Fin n} {max : Nat} (howner : w.hist.owner = some i)
    (hturn : w.Turned p i) (hmax : max ≤ netTxRoomSlot w.net i)
    (hshown : Shown env p (w.output i max)) : Delivers env p (w.output i max) := by
  have hsess : w.active i = true ∧ w.hist.sess i = (w.net.conns i).gen := by
    rcases hturn with hp | ⟨-, hact, hsess⟩
    · exact ⟨h.turn i hp, h.session hp⟩
    · exact ⟨hact, hsess⟩
  obtain ⟨hact, hsess⟩ := hsess
  have hlen : (w.shared.ob.take max).length ≤ netTxRoomSlot w.net i :=
    (List.length_take_le _ _).trans hmax
  obtain ⟨hqueues, -, hroom⟩ := putcs_fits i (w.shared.ob.take max) w.net hlen
  have hob : (w.output i max).shared.ob = w.shared.ob.drop max := rfl
  have hov : (w.output i max).shared.overflow = w.shared.overflow := rfl
  have hnet : (w.output i max).net = (putcs i (w.shared.ob.take max) w.net).2 := rfl
  have hact' : (w.output i max).active = w.active := rfl
  have hhist : (w.output i max).hist = w.hist := rfl
  have hslots : (w.output i max).slots = w.slots := rfl
  generalize w.output i max = w' at *
  generalize (putcs i (w.shared.ob.take max) w.net).2 = net at *
  subst hnet
  have hstream : ∀ g, streamOf i g w'.net.log =
      streamOf i g w.net.log ++ if g = (w.net.conns i).gen then w.shared.ob.take max else [] :=
    fun g => (streamOf_queues hqueues g).1
  have hself : (w.net.conns i).Kept (w'.net.conns i) := .of_life hqueues.life
  refine ⟨hshown, fun hp j => ?_, fun j => ?_, fun j => ?_, ?_, fun j hj ho hd => ?_,
    fun hm ho j hj => ?_⟩
  · by_cases hji : j = i
    · subst hji
      exact hself.just.trans (h.none_new hp j)
    · rw [hqueues.others j hji]
      exact h.none_new hp j
  · by_cases hji : j = i
    · subst hji
      exact hself.settled (h.settled j)
    · rw [hqueues.others j hji]
      exact h.settled j
  · rw [hact', hhist]
    by_cases hji : j = i
    · subst hji
      exact ((h.seats j).queued hact hsess hstream).kept hself
    · rw [hqueues.others j hji, funext (hqueues.logSame hji).stream]
      exact h.seats j
  · rw [hhist]
    exact h.turned
  · rw [hact'] at hj
    rw [hhist, howner] at ho
    cases ho
    rcases h.drained i hj howner hd with hnil | hfull
    · exact .inl (by rw [hob, hnil, List.drop_nil])
    · exact .inr (by omega)
  · rw [hhist] at hm
    rw [hov] at ho
    rw [hact'] at hj
    rw [hhist, hslots]
    have howner' : w'.hist.owner = some i := by
      rw [hhist]
      exact howner
    have hwire := h.wire hm ho j hj
    by_cases hji : j = i
    · subst hji
      rw [left_owner howner] at hwire
      rw [left_owner howner', hob, hsess, hstream, if_pos rfl, List.append_assoc,
        List.take_append_drop, ← hsess]
      exact hwire
    · rw [left_other howner hji] at hwire
      rw [left_other howner' hji, (hqueues.logSame hji).stream]
      exact hwire

/-- A round of the broadcast.  A slot that takes part has room, so `g_ob` holds nothing for it. -/
theorem casts (h : Delivers env .casting w) (hshown : Shown env .casting w') {data : List UInt8}
    {r : Render} (hcast : Casts env data { w with render := r } w')
    (hfit : ∀ i, w.eligible i = true → 0 < w.slotCap i) : Delivers env .casting w' := by
  have hnone : w.net.NoneNew := h.none_new fun hp => by cases hp
  have hact : w'.active = w.active := hcast.aside.active
  have hob : w'.shared.ob = w.shared.ob := by
    rw [hcast.aside.shared]
  have hov : w'.shared.overflow = w.shared.overflow := by
    rw [hcast.aside.shared]
  have hhist : w'.hist.sess = w.hist.sess ∧ w'.hist.owner = w.hist.owner ∧
      w'.hist.mixed = w.hist.mixed := by
    rw [hcast.aside.hist]
    exact ⟨rfl, rfl, rfl⟩
  obtain ⟨hsess, howner, hmixed⟩ := hhist
  have htakes : ∀ j, w.eligible j = true → Takes data w w' j := fun j hj => by
    obtain ⟨hconn, hlife⟩ := hcast.takes j hj
    exact ⟨hconn, hlife⟩
  have hkeeps : ∀ j, w.eligible j = false → Keeps w w' j := fun j hj => by
    obtain ⟨hslot, hconn, hlog⟩ := hcast.keeps j hj
    exact ⟨hslot, hconn, hlog⟩
  have huse : ∀ j, w.eligible j = true → w.active j = true ∧
      w.hist.sess j = (w.net.conns j).gen := by
    intro j hj
    simp only [eligible, netSlotConnected, Bool.and_eq_true, decide_eq_true_eq] at hj
    exact ⟨hj.1.1, (h.seats j).live hj.1.1 hj.1.2 (hnone j)⟩
  have hkept : ∀ j, (w.net.conns j).Kept (w'.net.conns j) := by
    intro j
    cases hel : w.eligible j with
    | true => exact .of_life (htakes j hel).life
    | false =>
        rw [(hkeeps j hel).conn]
        exact .refl _
  refine ⟨hshown, fun _ j => (hkept j).just.trans (hnone j),
    fun j => (hkept j).settled (h.settled j), fun j => ?_, Phase.noTurn rfl, fun j hj ho _ => ?_,
    fun hm ho j hj => ?_⟩
  · rw [hact, hsess]
    cases hel : w.eligible j with
    | true =>
        obtain ⟨hj, hgen⟩ := huse j hel
        obtain ⟨wire, -, hstream⟩ := (htakes j hel).conn
        exact ((h.seats j).queued hj hgen hstream).kept (hkept j)
    | false =>
        rw [(hkeeps j hel).conn, funext (hkeeps j hel).log.stream]
        exact h.seats j
  · rw [hact] at hj
    rw [howner] at ho
    have hpumped := h.drained j hj ho trivial
    cases hel : w.eligible j with
    | true =>
        have hready : sshChannelReady (w.slots j) = true := by
          simp only [eligible, Bool.and_eq_true] at hel
          exact hel.2
        have hbounds := slotCap_bounds hready (hfit j hel) le_rfl
        exact hpumped.imp hob.trans fun hfull => by omega
    | false =>
        refine hpumped.same hob ?_
        rw [netTxRoomSlot, netTxRoomSlot, (hkeeps j hel).conn]
  · rw [hmixed] at hm
    rw [hov] at ho
    rw [hact] at hj
    have hwire := h.wire hm ho j hj
    have hleft : w'.left j = w.left j := by
      rw [left, left, howner, hob]
    rw [hsess, hleft]
    cases hel : w.eligible j with
    | true =>
        obtain ⟨-, hgen⟩ := huse j hel
        obtain ⟨wire, hc, hstream⟩ := (htakes j hel).conn
        have hnil : w.left j = [] := by
          rw [left]
          split
          next hown =>
            have hready : sshChannelReady (w.slots j) = true := by
              simp only [eligible, Bool.and_eq_true] at hel
              exact hel.2
            have hbounds := slotCap_bounds hready (hfit j hel) le_rfl
            exact (h.drained j hj hown trivial).resolve_right fun hfull => by omega
          next => rfl
        rw [hnil, List.append_nil] at hwire ⊢
        rw [hstream, if_pos hgen, hc, hwire]
        exact (wireOf_cons (.frame true (w.slots j).sendSeq _ wire) (w.slots j).trace).symm
    | false =>
        rw [(hkeeps j hel).slot, (hkeeps j hel).log.stream]
        exact hwire

/-- Every step keeps the invariant. -/
theorem step (h : Delivers env p w) (hstep : Step env p w p' w') : Delivers env p' w' := by
  have hshown := h.toShown.step hstep
  cases hstep with
  | poll _ now pkt =>
      have hnone : w.net.NoneNew := h.none_new fun hp => by cases hp
      have hlives := netPoll_lives now pkt w.net
      have hsettled := fun j => netPoll_settled now pkt w.net j (hnone j)
      have hmute := netPoll_mute now pkt w.net
      generalize netPoll now pkt w.net = net at *
      refine ⟨hshown, fun hp => absurd rfl hp, hsettled, fun j => ?_, Phase.noTurn rfl,
        fun j _ _ hd => hd.elim, fun hm ho j hj => ?_⟩
      · rw [funext (hmute.logSame j).stream]
        exact (h.seats j).lives (hlives j)
      · have hwire := h.wire hm ho j hj
        rw [(hmute.logSame j).stream]
        exact hwire
  | begin _ i net htake =>
      obtain ⟨hnew, rfl⟩ := netTakeNewSlot_some htake
      exact h.begun hnew hshown
  | joined _ hnone =>
      refine ⟨hshown, fun _ => hnone, h.settled, h.seats, Phase.noTurn rfl, fun j _ _ hd => ?_, h.wire⟩
      exact absurd (List.mem_finRange j) hd
  | skip _ i todo hact =>
      refine h.service hshown rfl rfl rfl ⟨rfl, rfl⟩ ⟨rfl, rfl, rfl⟩ (fun _ hp => by cases hp)
        (Phase.noTurn rfl) fun j hj ho hd => h.drained j hj ho ?_
      rintro (_ | _)
      · rw [hact] at hj
        cases hj
      · exact hd ‹_›
  | lost _ i todo hcon =>
      have hleft : ∀ j, (w.setActive i false).active j = true → w.active j = true ∧ j ≠ i := by
        intro j hj
        have hji : j ≠ i := by
          rintro rfl
          exact absurd ((Function.update_self j _ _).symm.trans hj) Bool.false_ne_true
        exact ⟨(Function.update_of_ne hji _ _).symm.trans hj, hji⟩
      refine h.same hshown (fun j => .refl _) (.refl _) (fun j hj => (hleft j hj).1) rfl ⟨rfl, rfl⟩
        ⟨rfl, rfl, rfl⟩ (fun _ hp => by cases hp) (Phase.noTurn rfl) fun j hj ho hd => ?_
      obtain ⟨hj, hji⟩ := hleft j hj
      exact h.drained j hj ho fun hmem => hd ((List.mem_cons.mp hmem).resolve_left hji)
  | serve _ i todo hact hcon => exact h.served (fun hp => by cases hp) hshown rfl fun _ hd => hd
  | getc _ i todo =>
      refine h.same hshown (fun j => ?_) ?_ (fun _ => id) rfl ⟨rfl, rfl⟩ ⟨rfl, rfl, rfl⟩
        (fun _ hp => by cases hp) (fun _ => id) fun _ _ _ hd => hd.elim
      · show (w.net.conns j).Kept ((netRxGetc w.net i).2.conns j)
        unfold netRxGetc
        dsimp only
        split
        · exact .refl _
        · rw [Net.set_conns]
          split
          next hji =>
            subst hji
            exact ⟨rfl, rfl, .inl rfl⟩
          next => exact .refl _
      · show w.net.Mute (netRxGetc w.net i).2
        unfold netRxGetc
        dsimp only
        split
        · exact .refl _
        · exact (Net.Mute.refl w.net).set i _
  | quiet _ i todo =>
      exact h.service hshown rfl rfl rfl ⟨rfl, rfl⟩ ⟨rfl, rfl, rfl⟩ (fun _ hp => by cases hp)
        (fun _ => id) fun _ _ _ hd => hd.elim
  | input _ i todo data beyond fuel s hin =>
      have hrun : (sshInput env beyond fuel (w.ssh i) data).state? = some s := by
        rw [hin]
        rfl
      exact h.call rfl hshown (sshInput_records hrun) rfl fun _ hd => hd
  | pumped _ i todo hdone =>
      refine h.service hshown rfl rfl rfl ⟨rfl, rfl⟩ ⟨rfl, rfl, rfl⟩ (fun _ hp => by cases hp)
        (fun _ => id) fun j _ ho _ => ?_
      rw [h.turned i rfl] at ho
      cases ho
      exact hdone
  | key _ i todo b cin hcin hb =>
      exact h.service hshown rfl rfl rfl ⟨rfl, rfl⟩ ⟨rfl, rfl, rfl⟩ (fun _ hp => by cases hp)
        (fun _ => id) h.drained
  | drained _ i todo hcin =>
      exact h.service hshown rfl rfl rfl ⟨rfl, rfl⟩ ⟨rfl, rfl, rfl⟩ (fun _ hp => by cases hp)
        (fun _ => id) h.drained
  | eof _ i todo cin hcin heof =>
      have htaken : Delivers env (.draining i todo) { w with
          shared := { w.shared with cin := cin }
          hist := { w.hist with
            ended := Function.update w.hist.ended i true
            unopened := w.hist.unopened || !(w.slots i).chanOpen } } := by
        refine h.service ?_ rfl rfl rfl ⟨rfl, rfl⟩ ⟨rfl, rfl, rfl⟩ (fun _ hp => by cases hp)
          (fun _ => id) h.drained
        exact h.toShown.service (h.toSound.same h.net rfl rfl (fun _ => id) h.turn rfl) rfl rfl rfl
          rfl rfl rfl (fun _ => rfl) rfl rfl fun _ _ hj => by cases hj
      exact htaken.call rfl hshown
        (Ssh.Records.acts (sshChannelClose_acts (W := True) env _)) rfl fun _ hd => hd
  | closed _ i todo hdone =>
      refine h.service hshown rfl rfl rfl ⟨rfl, rfl⟩ ⟨rfl, rfl, rfl⟩ (fun _ hp => by cases hp)
        (fun _ => id) fun j _ ho _ => ?_
      rw [h.turned i rfl] at ho
      cases ho
      exact hdone
  | look _ i todo now =>
      exact h.glances (sshLook_glances now w i) hshown (fun _ hp => by cases hp) (fun _ => id)
        h.drained
  | keep _ i todo hkeep =>
      exact h.service hshown rfl rfl rfl ⟨rfl, rfl⟩ ⟨rfl, rfl, rfl⟩ (fun _ hp => by cases hp)
        (Phase.noTurn rfl) fun j hj ho _ => h.drained j hj ho trivial
  | teardown _ i todo hdoomed => exact h.torn hshown
  | cast =>
      exact h.service hshown rfl rfl rfl ⟨rfl, rfl⟩ ⟨rfl, rfl, rfl⟩ (fun _ hp => by cases hp)
        (Phase.noTurn rfl) fun j hj ho _ => h.drained j hj ho List.not_mem_nil
  | evict _ i =>
      exact h.dropped i hshown (fun _ hp => by cases hp) rfl fun j hj ho _ => h.drained j hj ho
  | still _ s r hnone =>
      exact h.service hshown rfl rfl rfl ⟨rfl, rfl⟩ ⟨rfl, rfl, rfl⟩ (fun _ hp => by cases hp)
        (Phase.noTurn rfl) h.drained
  | round _ s cap data r hpull hne hcap hfit =>
      refine h.casts hshown (h.toSound.round_casts hpull hne hcap hfit) fun i hi => ?_
      have hlen := pullLoop_length s cap w.render
      rw [hpull] at hlen
      exact ((List.length_pos_of_ne_nil hne).trans_le hlen).trans_le (hfit i hi)
  | done =>
      exact h.service hshown rfl rfl rfl ⟨rfl, rfl⟩ ⟨rfl, rfl, rfl⟩ (fun _ hp => by cases hp)
        (Phase.noTurn rfl) fun _ _ _ hd => hd.elim
  | output _ _ i max howner hturn hmax => exact h.output howner hturn hmax hshown
  | flush _ _ now =>
      refine h.same hshown (fun j => .of_stays (netTxFlush_conns now w.net j).stays)
        (netTxFlush_mute now w.net) (fun _ => id) rfl ⟨rfl, rfl⟩ ⟨rfl, rfl, rfl⟩ id (fun _ => id)
        fun j hj ho hd => ?_
      exact (h.drained j hj ho hd).same rfl (netTxFlush_room now w.net j)

/-- Between ticks every slot in use is connected, and its session is that of the connection. -/
theorem stream (h : Delivers env .idle w) (hmixed : w.hist.mixed = false)
    (hfit : w.shared.overflow = false) {i : Fin n} (hi : w.active i = true) :
    w.hist.sess i = (w.net.conns i).gen ∧
      streamOf i (w.net.conns i).gen w.net.log ++ w.left i = wireOf (w.slots i).trace := by
  have hestab := (h.calm i hi trivial).estab
  have hnone : w.net.NoneNew := h.none_new fun hp => by cases hp
  have hsess := (h.seats i).live hi hestab (hnone i)
  have hwire := h.wire hmixed hfit i hi
  rw [hsess] at hwire
  exact ⟨hsess, hwire⟩

end Delivers

end Worker

theorem WorkerReach.delivers {env : SshEnv} {w : Worker n} (h : WorkerReach env w) :
    Worker.Delivers env .idle w := by
  refine h.induct (fun gMac gIp myPort eofExit render => ?_) Worker.Delivers.step
  refine ⟨WorkerReach.shown ⟨gMac, gIp, myPort, eofExit, render, [], rfl⟩, fun _ _ => rfl,
    fun i => .of_old rfl, fun i => ⟨fun _ _ => rfl, fun _ => rfl, fun hi => ?_, fun hi => ?_,
    fun hi => ?_⟩, Phase.noTurn rfl, fun i hi => ?_, fun _ _ i hi => ?_⟩
  all_goals cases hi

/-! ## Main results -/

section

variable {env : SshEnv} {w : Worker n}

/-- **Isolation of the output.**  As long as the worker never turned to a slot while `g_ob` held
bytes of another and `ob_append` dropped nothing, the session of a slot in use is that of the
connection there, and what went to the ring of the slot, followed by what is left for it in `g_ob`,
is what was framed for the slot since `ssh_reset`. -/
theorem worker_streams_own (h : WorkerReach env w) (hmixed : w.hist.mixed = false)
    (hfit : w.shared.overflow = false) {i : Fin n} (hi : w.active i = true) :
    w.hist.sess i = (w.net.conns i).gen ∧
      streamOf i (w.net.conns i).gen w.net.log ++ w.left i = wireOf (w.slots i).trace :=
  h.delivers.stream hmixed hfit hi

theorem worker_streams_own_session : ∃ w : Worker 2, WorkerReach clearEnv w ∧
    ∀ i, w.active i = true ∧
      streamOf i (w.net.conns i).gen w.net.log ++ w.left i = wireOf (w.slots i).trace := by
  obtain ⟨w, hw⟩ := session_run
  refine ⟨w, hw.reach, fun i => ?_⟩
  obtain ⟨text, hi⟩ := hw.clients i
  exact ⟨hi.active,
    (worker_streams_own hw.reach hw.unmixed.1 hw.unmixed.2.2.2 hi.active).2⟩

/-- **From `ssh.c` to the wire.**  Under the same condition every data segment that was sent on the
connection carries what was framed for the slot, at the offset of its sequence number. -/
theorem worker_segments_own (h : WorkerReach env w) (hmixed : w.hist.mixed = false)
    (hfit : w.shared.overflow = false) {i : Fin n} (hi : w.active i = true)
    (hsmall : (wireOf (w.slots i).trace).length < 2 ^ 32) :
    ∃ b, (∀ b', NetEvent.estab i (w.net.conns i).gen b' ∈ w.net.log ↔ b' = b) ∧
      ∀ ipId s, NetEvent.seg i (w.net.conns i).gen ipId s ∈ w.net.log → s.data ≠ [] →
        (s.seq - b).toNat + s.data.length ≤ (wireOf (w.slots i).trace).length ∧
        s.data = ((wireOf (w.slots i).trace).drop (s.seq - b).toNat).take s.data.length := by
  have hok := h.delivers.net.sendOk
  have hestab := (h.delivers.calm i hi trivial).estab
  obtain ⟨b, una, nxt, hbase⟩ := (hok.slots i).estab hestab
  have hunique : ∀ b', NetEvent.estab i (w.net.conns i).gen b' ∈ w.net.log ↔ b' = b :=
    fun b' => ⟨hbase.unique b', fun hb => hb ▸ hbase.entry⟩
  have hwire := (h.delivers.stream hmixed hfit hi).2
  refine ⟨b, hunique, fun ipId s hs hdata => ?_⟩
  obtain ⟨newer, past, hsplit⟩ := List.append_of_mem hs
  have hsuf : (NetEvent.seg i (w.net.conns i).gen ipId s :: past) <:+ w.net.log :=
    ⟨newer, hsplit.symm⟩
  have hpast : past <:+ w.net.log := (List.suffix_cons _ _).trans hsuf
  -- what the connection had sent by then is a beginning of what was framed
  have hpre : streamOf i (w.net.conns i).gen past <+: wireOf (w.slots i).trace := by
    rw [← hwire]
    exact (streamOf_mono hpast).trans (List.prefix_append _ _)
  obtain ⟨b', hmem, -, hoff⟩ := (hok.segs.at hsuf).offset hdata
  have hb : b' = b := (hunique b').mp (hpast.subset hmem)
  subst hb
  have hle := hpre.length_le
  obtain ⟨hlen, hbytes⟩ := hoff (by omega)
  refine ⟨by omega, ?_⟩
  obtain ⟨rest, heq⟩ := hpre
  rw [← heq, List.drop_append_of_le_length (by omega), List.take_append_of_le_length]
  · exact hbytes
  · rw [List.length_drop]
    omega

theorem worker_segments_own_session : ∃ w : Worker 2, WorkerReach clearEnv w ∧
    ∀ i, ∃ b ipId s, NetEvent.seg i (w.net.conns i).gen ipId s ∈ w.net.log ∧ s.data ≠ [] ∧
      s.data = ((wireOf (w.slots i).trace).drop (s.seq - b).toNat).take s.data.length := by
  obtain ⟨w, hw⟩ := session_run
  refine ⟨w, hw.reach, fun i => ?_⟩
  obtain ⟨text, hi⟩ := hw.clients i
  obtain ⟨ipId, s, hs, hdata⟩ := hi.sent
  obtain ⟨b, -, hsegs⟩ := worker_segments_own hw.reach hw.unmixed.1 hw.unmixed.2.2.2 hi.active
    hi.small
  exact ⟨b, ipId, s, hs, hdata, (hsegs ipId s hs hdata).2⟩

end

end Dossh
