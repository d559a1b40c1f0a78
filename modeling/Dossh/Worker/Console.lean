import Dossh.Telnet.Console
import Dossh.Worker.Slots

/-!
# The console of the SSH clients

The data that was sealed for a client since its shell was ready is the end of one broadcast, and a
terminal that applies it shows the screen of the DOS box whenever `render_next_byte` has nothing to
send.

The invariant (`Worker.Shown`) rests on two facts about a tick.  When the broadcast begins, every
slot in use is connected, and takes part exactly if it was seen ready: the slots were serviced
before, and a flush closes nothing.  And a slot that is first seen ready resets the renderer, so
what comes after paints the whole screen.
-/

namespace Dossh

open Terminal

variable {n : Nat}

/-! ## The broadcast -/

/-- The bytes of the rounds from the `k`-th one on, oldest first. -/
def castSince (k : Nat) : List (Round n) → List UInt8
  | [] => []
  | r :: rs => if k ≤ rs.length then castSince k rs ++ r.data else []

theorem castSince_cons {k : Nat} {r : Round n} {rs : List (Round n)} (h : k ≤ rs.length) :
    castSince k (r :: rs) = castSince k rs ++ r.data := if_pos h

theorem castSince_self (rs : List (Round n)) : castSince rs.length rs = [] := by
  cases rs with
  | nil => rfl
  | cons r rs => exact if_neg (Nat.not_succ_le_self _)

/-- Who began later has seen an end of what the other saw. -/
theorem castSince_suffix {k k' : Nat} (h : k ≤ k') : ∀ rs : List (Round n),
    castSince k' rs <:+ castSince k rs
  | [] => List.suffix_rfl
  | r :: rs => by
      rw [castSince, castSince]
      split
      next hk' =>
        rw [if_pos (h.trans hk')]
        obtain ⟨before, heq⟩ := castSince_suffix h rs
        exact ⟨before, by rw [← heq, List.append_assoc]⟩
      next => exact List.nil_suffix

/-- The renderer pulls a chunk, and every terminal that was in step with it stays so. -/
theorem pullLoop_mirrors (s : Screen) : ∀ (k : Nat) {r r' : Render} {t : Term} {data : List UInt8},
    MirrorInv (t.feed r.pending) r → pullLoop s k r = (data, r') →
      MirrorInv ((t.feed data).feed r'.pending) r'
  | 0, r, r', t, data, h, hpull => by
      cases hpull
      exact h
  | k + 1, r, r', t, data, h, hpull => by
      have hspec := renderNextByte_spec h false s
      rw [pullLoop] at hpull
      rcases hnext : renderNextByte false s r with ⟨_ | b, r₁⟩
      · rw [hnext] at hpull hspec
        cases hpull
        exact hspec.1
      · rw [hnext] at hpull hspec
        rcases hrest : pullLoop s k r₁ with ⟨bs, r₂⟩
        dsimp only at hpull
        rw [hrest] at hpull
        cases hpull
        exact pullLoop_mirrors s k (t := t.feed [b]) hspec.2 hrest

/-- What is sealed for a client is data. -/
theorem dataOf_emitted (c : SshConn) (data wire : List UInt8) :
    dataOf (c.emitted data wire).trace = dataOf c.trace ++ data := by
  show dataOf c.trace ++ SshEvent.channelBytes (.frame true c.sendSeq (channelData c data) wire) = _
  rw [SshEvent.channelBytes, channelData_cons, List.headD_cons, if_pos rfl]
  simp [dataRest, putStr, be32]

/-! ## The invariant -/

/-- The slot needs no more service in this tick. -/
def Phase.done : Phase n → Fin n → Prop
  | .idle, _ | .casting, _ => True
  | .joining, _ => False
  | .between todo, j => j ∉ todo
  | .reading i todo, j | .fed i todo, j | .draining i todo, j | .closing i todo, j
  | .looking i todo, j | .ending i todo, j => j ∉ i :: todo

namespace Worker

/-- The slot is connected, and is ready exactly if it was seen so. -/
structure Calm (w : Worker n) (i : Fin n) : Prop where
  estab : (w.net.conns i).tstate = .estab
  opened : (w.slots i).chanClosed = false
  seen : w.readySeen i = sshChannelReady (w.slots i)

/-- From some round on the broadcast, applied by any terminal, is what the renderer believes the
terminal to show.  Every client that was seen ready saw all of it. -/
structure Mirrored (w : Worker n) (k : Nat) : Prop where
  round : k ≤ w.hist.rounds.length
  mark : ∀ i, w.active i = true → w.readySeen i = true → w.hist.mark i ≤ k
  mirror : ∀ t : Term, MirrorInv ((t.feed (castSince k w.hist.rounds)).feed w.render.pending)
    w.render

/-- What the clients were shown. -/
structure Shown (env : SshEnv) (p : Phase n) (w : Worker n) : Prop extends Sound env p w where
  serving : ∀ i, p.slot = some i → (w.net.conns i).tstate = .estab
  looked : ∀ i todo, p = .ending i todo → (w.slots i).chanClosed = false →
    w.readySeen i = sshChannelReady (w.slots i)
  calm : ∀ i, w.active i = true → p.done i → Calm w i
  seen : ∀ i, w.active i = true → w.readySeen i = true →
    (w.slots i).chanOpen = true ∧ (w.slots i).shellReady = true
  mark : ∀ i, w.hist.mark i ≤ w.hist.rounds.length
  data : ∀ i, w.active i = true → dataOf (w.slots i).trace =
    if w.readySeen i then castSince (w.hist.mark i) w.hist.rounds else []
  mirror : (∀ i, w.active i = true → w.readySeen i = false) ∨ ∃ k, Mirrored w k

theorem Calm.same {w w' : Worker n} {i : Fin n} (h : Calm w i)
    (hst : (w'.net.conns i).tstate = (w.net.conns i).tstate) (hslot : w'.slots i = w.slots i)
    (hseen : w'.readySeen i = w.readySeen i) : Calm w' i :=
  ⟨hst.trans h.estab, by rw [hslot]; exact h.opened, by rw [hseen, hslot]; exact h.seen⟩

theorem Calm.eligible {w : Worker n} {i : Fin n} (h : Calm w i) :
    w.eligible i = (w.active i && w.readySeen i) := by
  rw [Worker.eligible, netSlotConnected, h.estab, h.seen]
  simp

namespace Shown

variable {env : SshEnv} {p p' : Phase n} {w w' : Worker n}

/-- A step that sends nothing, repaints nothing and takes no slot into use. -/
theorem same (h : Shown env p w) (hsound : Sound env p' w') (hslots : w'.slots = w.slots)
    (hseen : w'.readySeen = w.readySeen) (hact : ∀ i, w'.active i = true → w.active i = true)
    (hmark : w'.hist.mark = w.hist.mark) (hrounds : w'.hist.rounds = w.hist.rounds)
    (hrender : w'.render = w.render)
    (hserving : ∀ i, p'.slot = some i → (w'.net.conns i).tstate = .estab)
    (hlooked : ∀ i todo, p' = .ending i todo → (w'.slots i).chanClosed = false →
      w'.readySeen i = sshChannelReady (w'.slots i))
    (hcalm : ∀ i, w'.active i = true → p'.done i → Calm w' i) : Shown env p' w' where
  toSound := hsound
  serving := hserving
  looked := hlooked
  calm := hcalm
  seen i hi hs := by
    rw [hslots]
    exact h.seen i (hact i hi) (hseen ▸ hs)
  mark i := by
    rw [hmark, hrounds]
    exact h.mark i
  data i hi := by
    rw [hslots, hseen, hmark, hrounds]
    exact h.data i (hact i hi)
  mirror := by
    rcases h.mirror with hno | ⟨k, hround, hk, hmirror⟩
    · refine .inl fun i hi => ?_
      rw [hseen]
      exact hno i (hact i hi)
    · refine .inr ⟨k, by rw [hrounds]; exact hround, fun i hi hs => ?_, fun t => ?_⟩
      · rw [hmark]
        exact hk i (hact i hi) (hseen ▸ hs)
      · rw [hrounds, hrender]
        exact hmirror t

/-- A step of the service of a slot that changes neither connections nor what was seen of them. -/
theorem service (h : Shown env p w) (hsound : Sound env p' w') (hslots : w'.slots = w.slots)
    (hseen : w'.readySeen = w.readySeen) (hact : w'.active = w.active)
    (hmark : w'.hist.mark = w.hist.mark) (hrounds : w'.hist.rounds = w.hist.rounds)
    (hrender : w'.render = w.render)
    (hst : ∀ i, (w'.net.conns i).tstate = (w.net.conns i).tstate) (hp : p'.slot = p.slot)
    (hdone : p'.done = p.done) (hend : ∀ i todo, p' = .ending i todo → p = p') :
    Shown env p' w' := by
  refine h.same hsound hslots hseen (fun i hi => hact ▸ hi) hmark hrounds hrender
    (fun i hi => (hst i).trans (h.serving i (hp ▸ hi))) (fun i todo hp' => ?_) fun i hi hd => ?_
  · rw [hslots, hseen]
    exact h.looked i todo ((hend i todo hp').trans hp')
  · rw [hdone] at hd
    exact (h.calm i (hact ▸ hi) hd).same (hst i) (by rw [hslots]) (by rw [hseen])

/-- A call on the connection of the slot that is serviced. -/
theorem call (h : Shown env p w) {i : Fin n} (hp : p.slot = some i) {s : Ssh}
    (hsound : Sound env p' (w.setSsh i s)) (hadv : (w.ssh i).Advances s) (hp' : p'.slot = p.slot)
    (hdone : ∀ j, p'.done j → p.done j ∧ j ≠ i) (hno : ∀ i todo, p' ≠ .ending i todo) :
    Shown env p' (w.setSsh i s) := by
  have hs := hadv h.cout
  have hself : (w.setSsh i s).slots i = s.c := Function.update_self i _ _
  have hother : ∀ j, j ≠ i → (w.setSsh i s).slots j = w.slots j :=
    fun j hj => Function.update_of_ne hj _ _
  refine ⟨hsound, fun j hj => h.serving j (hp' ▸ hj), fun j todo hj => absurd hj (hno j todo),
    fun j hj hd => ?_, fun j hj hseen => ?_, h.mark, fun j hj => ?_,
    h.mirror.imp_right fun ⟨k, hk⟩ => ⟨k, hk.round, hk.mark, hk.mirror⟩⟩
  · obtain ⟨hd, hji⟩ := hdone j hd
    exact (h.calm j hj hd).same rfl (hother j hji) rfl
  · obtain ⟨hopen, hshell⟩ := h.seen j hj hseen
    by_cases hji : j = i
    · subst hji
      rw [hself]
      exact ⟨hs.opened hopen, hs.ready hshell⟩
    · rw [hother j hji]
      exact ⟨hopen, hshell⟩
  · have hdata := h.data j hj
    by_cases hji : j = i
    · subst hji
      rw [hself, hs.data]
      exact hdata
    · rw [hother j hji]
      exact hdata

/-- A new connection has been shown nothing. -/
theorem begun (h : Shown env .joining w) (i : Fin n) : Shown env .joining (Worker.begun env w i) := by
  have hsound := h.toSound.begun i
  obtain ⟨-, hdata, -⟩ := sshReset_shell env w.shared
  have hslots := begun_slots env w i
  have hactive : (Worker.begun env w i).active = Function.update w.active i true := rfl
  have hseen : (Worker.begun env w i).readySeen = Function.update w.readySeen i false := rfl
  have hmark : (Worker.begun env w i).hist.mark = w.hist.mark := rfl
  have hrounds : (Worker.begun env w i).hist.rounds = w.hist.rounds := rfl
  have hrender : (Worker.begun env w i).render = w.render := rfl
  generalize Worker.begun env w i = w₁ at *
  have hother : ∀ j, w₁.active j = true → w₁.readySeen j = true →
      w.active j = true ∧ w.readySeen j = true ∧ j ≠ i := by
    intro j hj hs
    have hji : j ≠ i := by
      rintro rfl
      rw [hseen, Function.update_self] at hs
      cases hs
    rw [hactive, Function.update_of_ne hji] at hj
    rw [hseen, Function.update_of_ne hji] at hs
    exact ⟨hj, hs, hji⟩
  refine ⟨hsound, Phase.noTurn rfl, fun j todo hj => ?_, fun j hj hd => hd.elim, fun j hj hs => ?_,
    fun j => ?_, fun j hj => ?_, ?_⟩
  · cases hj
  · obtain ⟨hj, hs, hji⟩ := hother j hj hs
    rw [hslots, Function.update_of_ne hji]
    exact h.seen j hj hs
  · rw [hmark, hrounds]
    exact h.mark j
  · by_cases hji : j = i
    · subst hji
      rw [hslots, hseen, Function.update_self, Function.update_self]
      exact hdata
    · rw [hactive, Function.update_of_ne hji] at hj
      rw [hslots, hseen, Function.update_of_ne hji, Function.update_of_ne hji, hmark, hrounds]
      exact h.data j hj
  · rcases h.mirror with hno | ⟨k, hround, hk, hmirror⟩
    · refine .inl fun j hj => ?_
      by_contra hs
      obtain ⟨hj, hs, -⟩ := hother j hj (by simpa using hs)
      rw [hno j hj] at hs
      cases hs
    · refine .inr ⟨k, by rw [hrounds]; exact hround, fun j hj hs => ?_, fun t => ?_⟩
      · obtain ⟨hj, hs, -⟩ := hother j hj hs
        rw [hmark]
        exact hk j hj hs
      · rw [hrounds, hrender]
        exact hmirror t

/-! ### Looking at a slot -/

/-- After a reset every terminal is in step. -/
theorem repainted (hmark : ∀ i, w.hist.mark i ≤ w.hist.rounds.length) (now : BitVec 32) :
    Mirrored (w.repaint now) w.hist.rounds.length :=
  ⟨le_rfl, fun i _ _ => hmark i, fun _ => renderReset_mirrors now _ _⟩

/-- The slot is seen ready. -/
theorem greeted {i : Fin n} {todo : List (Fin n)} (h : Shown env (.looking i todo) w)
    (hready : sshChannelReady (w.slots i) = true) (now : BitVec 32) :
    Shown env (.looking i todo) (w.greeted now i) ∧ (w.greeted now i).readySeen i = true := by
  have hsound : Sound env (.looking i todo) (w.greeted now i) :=
    h.toSound.glances (greeted_glances now w i) rfl
  cases hunseen : w.readySeen i with
  | true =>
      have hsame : w.greeted now i = w := by
        rw [Worker.greeted, hunseen]
        rfl
      rw [hsame]
      exact ⟨h, hunseen⟩
  | false =>
      rw [Worker.greeted, hunseen, Bool.not_false, if_pos rfl] at hsound ⊢
      have hmark : ∀ j, Function.update w.hist.mark i w.hist.rounds.length j ≤
          w.hist.rounds.length := by
        intro j
        by_cases hji : j = i
        · subst hji
          rw [Function.update_self]
        · rw [Function.update_of_ne hji]
          exact h.mark j
      simp only [sshChannelReady, Bool.and_eq_true] at hready
      refine ⟨⟨hsound, h.serving, fun j todo' hj => (by cases hj), fun j hj hd => ?_,
        fun j hj hs => ?_, hmark, fun j hj => ?_, .inr ⟨_, repainted (by exact hmark) now⟩⟩,
        Function.update_self i _ _⟩
      · have hji : j ≠ i := fun hji => hd (hji ▸ List.mem_cons_self)
        exact (h.calm j hj hd).same rfl rfl (Function.update_of_ne hji _ _)
      · by_cases hji : j = i
        · subst hji
          exact hready.1
        · refine h.seen j hj ?_
          rw [← hs]
          exact (Function.update_of_ne hji _ _).symm
      · have hdata := h.data j hj
        show dataOf (w.slots j).trace = if Function.update w.readySeen i true j then
          castSince (Function.update w.hist.mark i w.hist.rounds.length j) w.hist.rounds else []
        by_cases hji : j = i
        · subst hji
          rw [hunseen] at hdata
          rw [Function.update_self, Function.update_self, castSince_self]
          exact hdata
        · rw [Function.update_of_ne hji, Function.update_of_ne hji]
          exact hdata

/-- A new terminal size. -/
theorem refitted (h : Shown env p w) (now : BitVec 32) (i : Fin n) :
    Shown env p (w.refitted now i) ∧ (w.refitted now i).readySeen = w.readySeen := by
  have hsound : Sound env p (w.refitted now i) :=
    h.toSound.glances (refitted_glances now w i) rfl
  unfold Worker.refitted at hsound ⊢
  dsimp only at hsound ⊢
  split
  next hsize =>
    rw [if_pos hsize] at hsound
    exact ⟨⟨hsound, h.serving, h.looked, fun i hi hd => (h.calm i hi hd).same rfl rfl rfl, h.seen,
      h.mark, h.data, .inr ⟨_, repainted (by exact h.mark) now⟩⟩, rfl⟩
  next => exact ⟨h, rfl⟩

theorem look {i : Fin n} {todo : List (Fin n)} (h : Shown env (.looking i todo) w)
    (now : BitVec 32) : Shown env (.ending i todo) (sshLook now w i) := by
  have hsound := h.toSound.step (.look w i todo now)
  have hglance := sshLook_glances now w i
  -- once the slot was looked at, only the phase changes
  have hlooked : Shown env (.looking i todo) (sshLook now w i) ∧
      ((w.slots i).chanClosed = false →
        (sshLook now w i).readySeen i = sshChannelReady (w.slots i)) := by
    rw [sshLook_eq]
    cases hready : sshChannelReady (w.slots i) with
    | true =>
        obtain ⟨hgreeted, hseen⟩ := h.greeted hready now
        obtain ⟨hfit, hsame⟩ := hgreeted.refitted now i
        rw [if_pos rfl, hsame]
        exact ⟨hfit, fun _ => hseen⟩
    | false =>
        rw [if_neg Bool.false_ne_true]
        refine ⟨h, fun hclosed => ?_⟩
        by_contra hs
        obtain ⟨hopen, hshell⟩ := h.seen i (h.turn i rfl) (by simpa using hs)
        rw [sshChannelReady, hopen, hshell, hclosed] at hready
        cases hready
  generalize sshLook now w i = w' at hsound hglance hlooked ⊢
  obtain ⟨h', hseen⟩ := hlooked
  refine h'.same hsound rfl rfl (fun _ => id) rfl rfl rfl h'.serving (fun j todo' hj => ?_) h'.calm
  cases hj
  rw [hglance.slots]
  exact hseen

/-! ### The broadcast -/

/-- A round reaches exactly the slots that were seen ready. -/
theorem casts (h : Shown env .casting w) (hsound : Sound env .casting w') {data : List UInt8}
    {s : Screen} {cap : Nat} {r : Render} (hpull : pullLoop s cap w.render = (data, r))
    (hcast : Casts env data { w with render := r } w') : Shown env .casting w' := by
  obtain ⟨round, hrounds, hrdata, -, -, -⟩ := hcast.round
  have hrounds : w'.hist.rounds = round :: w.hist.rounds := hrounds
  have hactive : w'.active = w.active := hcast.aside.active
  have hseen : w'.readySeen = w.readySeen := hcast.aside.seen
  have hmark : w'.hist.mark = w.hist.mark := by
    rw [hcast.aside.hist]
  have hrender : w'.render = r := hcast.aside.render
  have hel : ∀ j, w.active j = true → ({ w with render := r } : Worker n).eligible j =
      w.readySeen j := fun j hj => by
    have hcalm := (h.calm j hj trivial).eligible
    rw [hj, Bool.true_and] at hcalm
    exact hcalm
  -- what a round does to a slot in use
  have hslot : ∀ j, w.active j = true →
      (w'.net.conns j).tstate = (w.net.conns j).tstate ∧
      (w'.slots j).chanClosed = (w.slots j).chanClosed ∧
      (w'.slots j).chanOpen = (w.slots j).chanOpen ∧
      (w'.slots j).shellReady = (w.slots j).shellReady ∧
      dataOf (w'.slots j).trace =
        dataOf (w.slots j).trace ++ if w.readySeen j then data else [] := by
    intro j hj
    have hcase := hel j hj
    cases hs : w.readySeen j with
    | true =>
        rw [hs] at hcase
        obtain ⟨⟨wire, hc, -⟩, hlife⟩ := hcast.takes j hcase
        rw [hc]
        refine ⟨congrArg (fun l => l.1) hlife, rfl, rfl, rfl, ?_⟩
        exact dataOf_emitted (w.slots j) data wire
    | false =>
        rw [hs] at hcase
        have hkeep := hcast.keeps j hcase
        rw [hkeep.slot, hkeep.conn]
        exact ⟨rfl, rfl, rfl, rfl, (List.append_nil _).symm⟩
  refine ⟨hsound, Phase.noTurn rfl, fun j todo hj => (by cases hj), fun j hj _ => ?_,
    fun j hj hs => ?_, fun j => ?_, fun j hj => ?_, ?_⟩
  · rw [hactive] at hj
    obtain ⟨hst, hclosed, hopen, hshell, -⟩ := hslot j hj
    have hcalm := h.calm j hj trivial
    refine ⟨hst.trans hcalm.estab, hclosed.trans hcalm.opened, ?_⟩
    rw [hseen, hcalm.seen, sshChannelReady, sshChannelReady, hopen, hshell, hclosed]
  · rw [hactive] at hj
    obtain ⟨-, -, hopen, hshell, -⟩ := hslot j hj
    rw [hopen, hshell]
    exact h.seen j hj (hseen ▸ hs)
  · rw [hmark, hrounds]
    exact (h.mark j).trans (Nat.le_succ _)
  · rw [hactive] at hj
    obtain ⟨-, -, -, -, hdata⟩ := hslot j hj
    rw [hdata, h.data j hj, hseen, hmark, hrounds]
    cases w.readySeen j with
    | true => exact hrdata ▸ (castSince_cons (h.mark j)).symm
    | false => rfl
  · rcases h.mirror with hno | ⟨k, hround, hk, hmirror⟩
    · exact .inl fun j hj => by rw [hseen]; exact hno j (hactive ▸ hj)
    · refine .inr ⟨k, ?_, fun j hj hs => ?_, fun t => ?_⟩
      · rw [hrounds]
        exact hround.trans (Nat.le_succ _)
      · rw [hmark]
        exact hk j (hactive ▸ hj) (hseen ▸ hs)
      · rw [hrounds, hrender, castSince_cons hround, hrdata, Term.feed_append]
        exact pullLoop_mirrors s cap (hmirror t) hpull

/-! ### Steps -/

/-- A slot is given up. -/
theorem dropped (h : Shown env p w) (i : Fin n) (hsound : Sound env p' (w.evict i))
    (hp' : p'.slot = none) (hdone : ∀ j, w.active j = true → j ≠ i → p'.done j → p.done j) :
    Shown env p' (w.evict i) := by
  have hleft : ∀ j, (w.evict i).active j = true → w.active j = true ∧ j ≠ i := by
    intro j hj
    have hji : j ≠ i := by
      rintro rfl
      rw [(w.evict_self j).1] at hj
      cases hj
    rw [(w.evict_same hji).active] at hj
    exact ⟨hj, hji⟩
  refine h.same hsound rfl rfl (fun j hj => (hleft j hj).1) rfl rfl rfl (Phase.noTurn hp')
    (fun j todo hj => ?_) fun j hj hd => ?_
  · rw [hj] at hp'
    cases hp'
  · obtain ⟨hj, hji⟩ := hleft j hj
    exact (h.calm j hj (hdone j hj hji hd)).same (by rw [(w.evict_same hji).conn]) rfl rfl

/-- Every step keeps the invariant. -/
theorem step (h : Shown env p w) (hstep : Step env p w p' w') : Shown env p' w' := by
  have hsound := h.toSound.step hstep
  cases hstep with
  | poll _ now pkt =>
      exact h.same hsound rfl rfl (fun _ => id) rfl rfl rfl (Phase.noTurn rfl)
        (fun j todo hj => by cases hj) fun j hj hd => hd.elim
  | begin _ i net htake =>
      have htaken : Shown env .joining { w with net := net } := by
        have hnet : NetReach net := by
          have hcall := h.net.step .takeNew
          rw [NetOp.run, htake] at hcall
          exact hcall
        exact h.same (h.toSound.same hnet rfl rfl (fun _ => id) (Phase.noTurn rfl) rfl) rfl rfl
          (fun _ => id) rfl rfl rfl (Phase.noTurn rfl) (fun j todo hj => by cases hj)
          fun j hj hd => hd.elim
      exact htaken.begun i
  | joined _ hnone =>
      exact h.same hsound rfl rfl (fun _ => id) rfl rfl rfl (Phase.noTurn rfl)
        (fun j todo hj => by cases hj) fun j hj hd => absurd (List.mem_finRange j) hd
  | skip _ i todo hact =>
      refine h.same hsound rfl rfl (fun _ => id) rfl rfl rfl (Phase.noTurn rfl)
        (fun j todo hj => by cases hj) fun j hj hd => h.calm j hj ?_
      rintro (_ | _)
      · rw [hact] at hj
        cases hj
      · exact hd ‹_›
  | lost _ i todo hcon =>
      have hleft : ∀ j, (w.setActive i false).active j = true → w.active j = true ∧ j ≠ i := by
        intro j hj
        have hji : j ≠ i := by
          rintro rfl
          exact absurd ((Function.update_self j _ _).symm.trans hj) Bool.false_ne_true
        exact ⟨(Function.update_of_ne hji _ _).symm.trans hj, hji⟩
      refine h.same hsound rfl rfl (fun j hj => (hleft j hj).1) rfl rfl rfl (Phase.noTurn rfl)
        (fun j todo hj => by cases hj) fun j hj hd => ?_
      obtain ⟨hj, hji⟩ := hleft j hj
      exact (h.calm j hj fun hmem => hd ((List.mem_cons.mp hmem).resolve_left hji)).same rfl rfl rfl
  | serve _ i todo hact hcon =>
      refine h.same hsound rfl rfl (fun _ => id) rfl rfl rfl (fun j hj => ?_)
        (fun j todo hj => by cases hj) fun j hj hd => (h.calm j hj hd).same rfl rfl rfl
      cases hj
      rw [netSlotConnected, decide_eq_true_eq] at hcon
      exact hcon
  | getc _ i todo =>
      refine h.service hsound rfl rfl rfl rfl rfl rfl (fun j => ?_) rfl rfl fun _ _ hj => by cases hj
      show ((netRxGetc w.net i).2.conns j).tstate = _
      unfold netRxGetc
      dsimp only
      split
      · rfl
      · rw [Net.set_conns]
        split
        next hji =>
          subst hji
          rfl
        next => rfl
  | quiet _ i todo =>
      exact h.service hsound rfl rfl rfl rfl rfl rfl (fun _ => rfl) rfl rfl fun _ _ hj => by cases hj
  | input _ i todo data beyond fuel s hin =>
      have hrun : (sshInput env beyond fuel (w.ssh i) data).state? = some s := by
        rw [hin]
        rfl
      refine h.call rfl hsound (sshInput_advances hrun) rfl (fun j hd => ⟨hd, ?_⟩)
        fun _ _ hj => by cases hj
      exact fun hji => hd (hji ▸ List.mem_cons_self)
  | pumped _ i todo hdone =>
      exact h.service hsound rfl rfl rfl rfl rfl rfl (fun _ => rfl) rfl rfl fun _ _ hj => by cases hj
  | key _ i todo b cin hcin hb =>
      exact h.service hsound rfl rfl rfl rfl rfl rfl (fun _ => rfl) rfl rfl fun _ _ hj => by cases hj
  | drained _ i todo hcin =>
      exact h.service hsound rfl rfl rfl rfl rfl rfl (fun _ => rfl) rfl rfl fun _ _ hj => by cases hj
  | eof _ i todo cin hcin heof =>
      have htaken : Shown env (.draining i todo) { w with
          shared := { w.shared with cin := cin }
          hist := { w.hist with
            ended := Function.update w.hist.ended i true
            unopened := w.hist.unopened || !(w.slots i).chanOpen } } :=
        h.service (h.toSound.same h.net rfl rfl (fun _ => id) h.turn rfl) rfl rfl rfl rfl rfl rfl
          (fun _ => rfl) rfl rfl fun _ _ hj => by cases hj
      refine htaken.call rfl hsound (sshChannelClose_advances env _) rfl (fun j hd => ⟨hd, ?_⟩)
        fun _ _ hj => by cases hj
      exact fun hji => hd (hji ▸ List.mem_cons_self)
  | closed _ i todo hdone =>
      exact h.service hsound rfl rfl rfl rfl rfl rfl (fun _ => rfl) rfl rfl fun _ _ hj => by cases hj
  | look _ i todo now => exact h.look now
  | keep _ i todo hkeep =>
      refine h.same hsound rfl rfl (fun _ => id) rfl rfl rfl (Phase.noTurn rfl)
        (fun j todo hj => by cases hj) fun j hj hd => ?_
      by_cases hji : j = i
      · subst hji
        have hclosed : (w.slots j).chanClosed = false := by
          rw [doomed, Bool.or_eq_false_iff, Bool.or_eq_false_iff] at hkeep
          exact hkeep.1.1
        exact ⟨h.serving j rfl, hclosed, h.looked j todo rfl hclosed⟩
      · exact h.calm j hj fun hmem => hd ((List.mem_cons.mp hmem).resolve_left hji)
  | teardown _ i todo hdoomed =>
      have hdiscard : Shown env (.ending i todo) { w with shared := sshDiscardOutput w.shared } :=
        h.service (h.toSound.same h.net rfl rfl (fun _ => id) h.turn rfl) rfl rfl rfl rfl rfl rfl
          (fun _ => rfl) rfl rfl fun _ _ _ => rfl
      exact hdiscard.dropped i hsound rfl fun j _ hji hd hmem =>
        hd ((List.mem_cons.mp hmem).resolve_left hji)
  | cast =>
      exact h.same hsound rfl rfl (fun _ => id) rfl rfl rfl (Phase.noTurn rfl)
        (fun j todo hj => by cases hj) fun j hj _ => h.calm j hj List.not_mem_nil
  | evict _ i => exact h.dropped i hsound rfl fun _ _ _ => id
  | still _ s r hnone =>
      refine ⟨hsound, Phase.noTurn rfl, fun j todo hj => (by cases hj),
        fun j hj hd => (h.calm j hj hd).same rfl rfl rfl, h.seen, h.mark, h.data,
        h.mirror.imp_right fun hm => ?_⟩
      obtain ⟨k, hk⟩ := hm
      refine ⟨k, hk.round, hk.mark, fun t => ?_⟩
      have hspec := renderNextByte_spec (hk.mirror t) false s
      rw [hnone] at hspec
      exact hspec.1
  | round _ s cap data r hpull hne hcap hfit =>
      exact h.casts hsound hpull (h.toSound.round_casts hpull hne hcap hfit)
  | done =>
      exact h.same hsound rfl rfl (fun _ => id) rfl rfl rfl (Phase.noTurn rfl)
        (fun j todo hj => by cases hj) h.calm
  | output _ _ i max howner hturn hmax =>
      refine h.service hsound rfl rfl rfl rfl rfl rfl (fun j => ?_) rfl rfl fun _ _ _ => rfl
      have hlen : (sshOutput w.shared max).1.length ≤ netTxRoomSlot w.net i :=
        (List.length_take_le _ _).trans hmax
      obtain ⟨hqueues, -, -⟩ := putcs_fits i _ w.net hlen
      by_cases hji : j = i
      · subst hji
        exact congrArg (fun l => l.1) hqueues.life
      · exact congrArg Conn.tstate (hqueues.others j hji)
  | flush _ _ now =>
      refine h.service hsound rfl rfl rfl rfl rfl rfl (fun j => ?_) rfl rfl fun _ _ _ => rfl
      show ((netTxFlush now w.net).conns j).tstate = _
      rw [(netTxFlush_conns now w.net j).same]

end Shown

end Worker

theorem WorkerReach.shown {env : SshEnv} {w : Worker n} (h : WorkerReach env w) :
    Worker.Shown env .idle w := by
  refine h.induct (fun gMac gIp myPort eofExit render => ?_) Worker.Shown.step
  refine ⟨WorkerReach.sound ⟨gMac, gIp, myPort, eofExit, render, [], rfl⟩, Phase.noTurn rfl,
    fun i todo hp => ?_, fun i hi => ?_, fun i hi => ?_, fun i => le_rfl, fun i hi => ?_,
    .inl fun i _ => rfl⟩
  · cases hp
  all_goals cases hi

/-! ## Main results -/

/-- What a client was shown is what was broadcast since it was seen ready. -/
theorem WorkerReach.data {env : SshEnv} {w : Worker n} (h : WorkerReach env w) {i : Fin n}
    (hi : w.active i = true) : dataOf (w.slots i).trace =
      if w.readySeen i then castSince (w.hist.mark i) w.hist.rounds else [] := h.shown.data i hi

/-- **Agreement of the SSH clients.**  Between ticks a slot in use is connected, and takes part in
the broadcast exactly if it was seen ready.  The data sealed for it is then the broadcast since that
time, and nothing otherwise.  So of two clients one was sent what the other was, and more in front
of it. -/
theorem worker_clients_agree {env : SshEnv} {w : Worker n} (h : WorkerReach env w) :
    (∀ i, w.active i = true → netSlotConnected w.net i = true ∧ w.eligible i = w.readySeen i ∧
      dataOf (w.slots i).trace =
        if w.readySeen i then castSince (w.hist.mark i) w.hist.rounds else []) ∧
    ∀ i j, w.eligible i = true → w.eligible j = true →
      dataOf (w.slots i).trace <:+ dataOf (w.slots j).trace ∨
        dataOf (w.slots j).trace <:+ dataOf (w.slots i).trace := by
  have hshown := h.shown
  have hone : ∀ i, w.active i = true → netSlotConnected w.net i = true ∧
      w.eligible i = w.readySeen i := by
    intro i hi
    have hcalm := hshown.calm i hi trivial
    have hel := hcalm.eligible
    rw [hi, Bool.true_and] at hel
    exact ⟨decide_eq_true hcalm.estab, hel⟩
  have hcast : ∀ i, w.eligible i = true →
      dataOf (w.slots i).trace = castSince (w.hist.mark i) w.hist.rounds := by
    intro i hel
    have hi : w.active i = true := by
      simp only [Worker.eligible, Bool.and_eq_true] at hel
      exact hel.1.1
    rw [h.data hi, ← (hone i hi).2, hel, if_pos rfl]
  refine ⟨fun i hi => ⟨(hone i hi).1, (hone i hi).2, h.data hi⟩, fun i j hi hj => ?_⟩
  rw [hcast i hi, hcast j hj]
  rcases Nat.le_total (w.hist.mark i) (w.hist.mark j) with hle | hle
  · exact .inr (castSince_suffix hle _)
  · exact .inl (castSince_suffix hle _)

theorem worker_clients_agree_session : ∃ w : Worker 2, WorkerReach clearEnv w ∧
    (∀ i, w.active i = true ∧ dataOf (w.slots i).trace ≠ [] ∧
      dataOf (w.slots i).trace = castSince (w.hist.mark i) w.hist.rounds) ∧
    (dataOf (w.slots 0).trace <:+ dataOf (w.slots 1).trace ∨
      dataOf (w.slots 1).trace <:+ dataOf (w.slots 0).trace) := by
  obtain ⟨w, hw⟩ := session_run
  obtain ⟨hone, htwo⟩ := worker_clients_agree hw.reach
  have heligible : ∀ i, w.eligible i = true := by
    intro i
    obtain ⟨text, hi⟩ := hw.clients i
    exact (hone i hi.active).2.1.trans hi.seen
  refine ⟨w, hw.reach, fun i => ?_, htwo 0 1 (heligible 0) (heligible 1)⟩
  obtain ⟨text, hi⟩ := hw.clients i
  refine ⟨hi.active, hi.shown, ?_⟩
  rw [(hone i hi.active).2.2, hi.seen, if_pos rfl]

end Dossh
