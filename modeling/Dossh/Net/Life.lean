import Dossh.Net.Isolation

/-!
# The life of a slot

What the framing code can tell of a slot: its state, its generation, whether it was just
established and whether it has received bytes.  Sending does not show here.  `Conn.Stays` is what
the calls that send can do, and `Conn.LifeStep` adds what happens in `net_poll`.  In
`net_take_new_slot` the bit for a new connection is cleared, so that call is not among them.
-/

namespace Dossh

variable {n : Nat} {c c' c'' : Conn}

/-- The slot is as it was, or it was given back. -/
structure Conn.Stays (c c' : Conn) : Prop where
  gen : c'.gen = c.gen
  just : c'.justEstab = c.justEstab
  state : c'.tstate = c.tstate ∧ c'.rTail = c.rTail ∧ c'.rHead = c.rHead ∨
    c'.tstate = .listen ∧ c'.rTail = c'.rHead

/-- What happens to a slot in `net_poll`. -/
inductive Conn.LifeStep (c c' : Conn) : Prop where
  | stays (h : c.Stays c')
  | stored (hst : c.tstate = .estab) (hst' : c'.tstate = .estab) (hgen : c'.gen = c.gen)
      (hjust : c'.justEstab = c.justEstab)
  | syn (hst : c'.tstate = .synrcvd) (hgen : c'.gen = c.gen + 1) (hring : c'.rTail = c'.rHead)
  | estab (hst : c.tstate = .synrcvd) (hst' : c'.tstate = .estab) (hgen : c'.gen = c.gen)
      (hjust : c'.justEstab = true)

/-- A sequence of such steps. -/
def Conn.Lives : Conn → Conn → Prop := Relation.ReflTransGen Conn.LifeStep

namespace Conn.Stays

theorem same (hgen : c'.gen = c.gen) (hjust : c'.justEstab = c.justEstab)
    (hst : c'.tstate = c.tstate) (ht : c'.rTail = c.rTail) (hh : c'.rHead = c.rHead) :
    c.Stays c' := ⟨hgen, hjust, .inl ⟨hst, ht, hh⟩⟩

theorem refl (c : Conn) : c.Stays c := same rfl rfl rfl rfl rfl

theorem trans (h : c.Stays c') (h' : c'.Stays c'') : c.Stays c'' := by
  refine ⟨h'.gen.trans h.gen, h'.just.trans h.just, ?_⟩
  rcases h'.state with ⟨hst', ht', hh'⟩ | hlisten
  · rw [hst', ht', hh']
    exact h.state
  · exact .inr hlisten

theorem reset (c : Conn) : c.Stays (tcpResetListen c) := ⟨rfl, rfl, .inr ⟨rfl, rfl⟩⟩

theorem lives (h : c.Stays c') : c.Lives c' := Relation.ReflTransGen.single (.stays h)

/-- One `set` of a function. -/
theorem of_set {net : Net n} {i : Fin n} (h : (net.conns i).Stays c) (j : Fin n) :
    (net.conns j).Stays ((net.set i c).conns j) := by
  rw [Net.set_conns]
  split
  next hji =>
    subst hji
    exact h
  next => exact .refl _

end Conn.Stays

/-! ## Calls that send -/

theorem ringAppend_stays (kind : TxKind) (net : Net n) (i : Fin n) (b : UInt8) (j : Fin n) :
    (net.conns j).Stays ((ringAppend kind net i b).conns j) := by
  refine @Conn.Stays.of_set n _ (net.note _) i ?_ j
  exact .same rfl rfl rfl rfl rfl

theorem netTxPutcSlot_stays (net : Net n) (i : Fin n) (b : UInt8) (j : Fin n) :
    (net.conns j).Stays ((netTxPutcSlot net i b).2.conns j) := by
  unfold netTxPutcSlot
  split
  · exact .refl _
  · exact ringAppend_stays .unicast net i b j

theorem netSlotReady_stays (net : Net n) (i : Fin n) (v : Bool) (j : Fin n) :
    (net.conns j).Stays ((netSlotReady net i v).conns j) := by
  unfold netSlotReady
  dsimp only
  split
  · refine @Conn.Stays.of_set n _ (net.note _) i ?_ j
    exact .same rfl rfl rfl rfl rfl
  · refine Conn.Stays.of_set ?_ j
    exact .same rfl rfl rfl rfl rfl

theorem netSlotDrop_stays (net : Net n) (i j : Fin n) :
    (net.conns j).Stays ((netSlotDrop net i).conns j) := by
  unfold netSlotDrop
  dsimp only
  split
  · exact @Conn.Stays.of_set n _ (tcpSendSeg net i _ _ _ _) i (.reset _) j
  · exact Conn.Stays.of_set (.reset _) j

theorem putcCheck_stays (j : Fin n) : ∀ (is : List (Fin n)) (net : Net n),
    (net.conns j).Stays ((putcCheck is net).2.conns j)
  | [], _ => .refl _
  | i :: is, net => by
      rw [putcCheck]
      split
      · split
        · exact (Conn.Stays.of_set (.reset _) j).trans (putcCheck_stays j is _)
        · exact .refl _
      · exact putcCheck_stays j is net

theorem putcAppend_stays (b : UInt8) (j : Fin n) : ∀ (is : List (Fin n)) (net : Net n),
    (net.conns j).Stays ((is.foldl (putcAppend b) net).conns j)
  | [], _ => .refl _
  | i :: is, net => by
      refine Conn.Stays.trans ?_ (putcAppend_stays b j is (putcAppend b net i))
      unfold putcAppend
      split
      · exact ringAppend_stays .screen net i b j
      · exact .refl _

theorem netTxPutc_stays (net : Net n) (b : UInt8) (j : Fin n) :
    (net.conns j).Stays ((netTxPutc net b).2.conns j) := by
  unfold netTxPutc
  dsimp only
  split
  · exact (putcCheck_stays j _ net).trans (putcAppend_stays b j _ _)
  · exact putcCheck_stays j _ net

theorem Conn.Flushed.stays (h : c.Flushed c') : c.Stays c' := by
  rw [h.same]
  exact .same rfl rfl rfl rfl rfl

/-! ## A poll -/

theorem Conn.timer_stays (now : BitVec 32) (c : Conn) : c.Stays (c.timer now) := by
  unfold Conn.timer
  split
  · split
    · exact ⟨rfl, rfl, .inr ⟨rfl, rfl⟩⟩
    · exact .same rfl rfl rfl rfl rfl
  · exact .refl c

theorem tcpInConn_lives (now : BitVec 32) (f : Nat → UInt8) (net : Net n) (h : TcpHdr)
    (i : Fin n) : (net.conns i).Lives ((tcpInConn now f net h i).conns i) := by
  unfold tcpInConn
  split
  · exact .refl
  next net' hs =>
    have hfirst : (net.conns i).Lives (net'.conns i) := by
      unfold tcpInSynrcvd at hs
      dsimp only at hs
      split at hs
      next hst =>
        split at hs
        · cases hs
          rw [Net.set_conns_self]
          exact .single (.estab hst rfl rfl rfl)
        · cases hs
      next =>
        cases hs
        exact .refl
    split
    · exact hfirst
    next hst =>
      rw [not_not] at hst
      refine hfirst.trans ?_
      have hdata : (net'.conns i).LifeStep
          ((tcpInData f (net'.set i (tcpInAck now h (net'.conns i))) h i).conns i) := by
        have hack : ∀ c : Conn, (tcpInAck now h c).gen = c.gen ∧
            (tcpInAck now h c).justEstab = c.justEstab := by
          intro c
          unfold tcpInAck
          split <;> exact ⟨rfl, rfl⟩
        have hstored := tcpInData_sameButRcv f (net'.set i (tcpInAck now h (net'.conns i))) h i
        rw [Net.set_conns_self] at hstored
        refine .stored hst ?_ ?_ ?_
        · rw [hstored.eq]
          exact (tcpInAck_tstate now h _).trans hst
        · rw [hstored.eq]
          exact (hack _).1
        · rw [hstored.eq]
          exact (hack _).2
      refine Relation.ReflTransGen.trans (.single hdata) ?_
      unfold tcpInFin
      split
      · rw [Net.set_conns_self]
        refine Conn.Stays.lives ⟨?_, ?_, .inr ⟨rfl, rfl⟩⟩
        all_goals
          rw [tcpSendSeg_conns, Net.set_conns_self]
          rfl
      · exact .refl

theorem tcpIn_lives (now : BitVec 32) (net : Net n) (f : Nat → UInt8) (j : Fin n) :
    (net.conns j).Lives ((tcpIn now net f).conns j) := by
  unfold tcpIn
  dsimp only
  split
  · exact .refl
  split
  · exact .refl
  split
  · unfold tcpInRst
    split
    · exact (Conn.Stays.of_set (.reset _) j).lives
    · exact .refl
  split
  · unfold tcpInSyn
    split
    · exact .refl
    · split
      · exact .refl
      next i _ =>
        by_cases hji : j = i
        · subst hji
          simp only [tcpInSynAccept, Net.set_conns_self]
          exact .single (.syn rfl rfl rfl)
        · rw [tcpInSynAccept_other now net _ hji]
          exact .refl
  · split
    · exact .refl
    next i _ =>
      by_cases hji : j = i
      · subst hji
        exact tcpInConn_lives now f net _ j
      · rw [tcpInConn_other now f net _ hji]
        exact .refl

theorem handleFrame_lives (now : BitVec 32) (net : Net n) (f : Nat → UInt8) (len : Nat)
    (j : Fin n) : (net.conns j).Lives ((handleFrame now net f len).conns j) := by
  cases htcp : tcpFrame net f len with
  | true =>
      rw [handleFrame_tcp now net f len htcp]
      exact tcpIn_lives now net f j
  | false =>
      rcases handleFrame_other now net f len htcp with heq | heq
      · rw [heq]
        exact .refl
      · rw [heq]
        unfold arpIn
        dsimp only
        repeat' split
        all_goals exact .refl

theorem netPoll_lives (now : BitVec 32) (pkt : Option (List UInt8)) (net : Net n) (j : Fin n) :
    (net.conns j).Lives ((netPoll now pkt net).conns j) := by
  have htimer : (net.conns j).Lives ((netTimers now net).conns j) := by
    rw [netTimers_conns]
    exact (Conn.timer_stays now _).lives
  refine htimer.trans (Relation.ReflTransGen.trans ?_ (netTxFlush_conns now _ j).stays.lives)
  unfold netReceive
  split
  · exact .refl
  next stage =>
    exact handleFrame_lives now
      { netTimers now net with work := overlay (netTimers now net).work 0 (stage.take WORK_SZ) } _ _ j

/-! ## New connections -/

/-- A connection that waits for `net_take_new_slot` is past its handshake. -/
def Conn.Settled (c : Conn) : Prop := c.justEstab = true → c.tstate ≠ .synrcvd

theorem Conn.Settled.of_old (h : c.justEstab = false) : c.Settled := by
  intro hnew
  rw [h] at hnew
  cases hnew

theorem Conn.Settled.stays (h : c.Settled) (hc : c.Stays c') : c'.Settled := by
  intro hnew
  rw [hc.just] at hnew
  rcases hc.state with ⟨hst, -⟩ | ⟨hst, -⟩
  · rw [hst]
    exact h hnew
  · rw [hst]
    exact nofun

theorem tcpInConn_settled (now : BitVec 32) (f : Nat → UInt8) (net : Net n) (h : TcpHdr)
    (i : Fin n) (hold : (net.conns i).justEstab = false) :
    ((tcpInConn now f net h i).conns i).Settled := by
  unfold tcpInConn
  split
  · exact .of_old hold
  next net' hs =>
    split
    next hst =>
      -- the handshake was not completed, so nothing changed
      unfold tcpInSynrcvd at hs
      dsimp only at hs
      split at hs
      · split at hs
        · cases hs
          rw [Net.set_conns_self] at hst
          exact absurd rfl hst
        · cases hs
      · cases hs
        exact .of_old hold
    next hst =>
      rw [not_not] at hst
      have hdata : ((tcpInData f (net'.set i (tcpInAck now h (net'.conns i))) h i).conns i).tstate =
          .estab := by
        have hstored := tcpInData_sameButRcv f (net'.set i (tcpInAck now h (net'.conns i))) h i
        rw [Net.set_conns_self] at hstored
        rw [hstored.eq]
        exact (tcpInAck_tstate now h _).trans hst
      intro _
      unfold tcpInFin
      split
      · rw [Net.set_conns_self]
        exact nofun
      · rw [hdata]
        exact nofun

theorem tcpIn_settled (now : BitVec 32) (net : Net n) (f : Nat → UInt8) (j : Fin n)
    (hold : (net.conns j).justEstab = false) : ((tcpIn now net f).conns j).Settled := by
  have hsame : (net.conns j).Settled := .of_old hold
  unfold tcpIn
  dsimp only
  split
  · exact hsame
  split
  · exact hsame
  split
  · unfold tcpInRst
    split
    · exact hsame.stays (Conn.Stays.of_set (.reset _) j)
    · exact hsame
  split
  · unfold tcpInSyn
    split
    · exact hsame
    · split
      · exact hsame
      next i _ =>
        by_cases hji : j = i
        · subst hji
          simp only [tcpInSynAccept, Net.set_conns_self]
          exact .of_old hold
        · rw [tcpInSynAccept_other now net _ hji]
          exact hsame
  · split
    · exact hsame
    next i _ =>
      by_cases hji : j = i
      · subst hji
        exact tcpInConn_settled now f net _ j hold
      · rw [tcpInConn_other now f net _ hji]
        exact hsame

theorem netPoll_settled (now : BitVec 32) (pkt : Option (List UInt8)) (net : Net n) (j : Fin n)
    (hold : (net.conns j).justEstab = false) : ((netPoll now pkt net).conns j).Settled := by
  have htimer : ((netTimers now net).conns j).justEstab = false := by
    rw [netTimers_conns, (Conn.timer_stays now _).just]
    exact hold
  refine Conn.Settled.stays ?_ (netTxFlush_conns now _ j).stays
  unfold netReceive
  split
  · exact .of_old htimer
  next stage =>
    generalize hnet : ({ netTimers now net with
      work := overlay (netTimers now net).work 0 (stage.take WORK_SZ) } : Net n) = net₁
    have hold₁ : (net₁.conns j).justEstab = false := by
      rw [← hnet]
      exact htimer
    dsimp only
    rw [hnet]
    generalize overlay (netTimers now net).work 0 (stage.take WORK_SZ) = f
    cases htcp : tcpFrame net₁ f (stage.take WORK_SZ).length with
    | true =>
        rw [handleFrame_tcp now net₁ f _ htcp]
        exact tcpIn_settled now net₁ f j hold₁
    | false =>
        rcases handleFrame_other now net₁ f _ htcp with heq | heq
        · rw [heq]
          exact .of_old hold₁
        · rw [heq]
          unfold arpIn
          dsimp only
          repeat' split
          all_goals exact .of_old hold₁

/-- No connection waits for `net_take_new_slot`. -/
def Net.NoneNew (net : Net n) : Prop := ∀ j, (net.conns j).justEstab = false

/-- The connections that wait for it. -/
def Net.newSlots (net : Net n) : Finset (Fin n) :=
  Finset.univ.filter fun j => (net.conns j).justEstab = true

theorem Net.newSlots_stays {net net' : Net n}
    (h : ∀ j, (net.conns j).Stays (net'.conns j)) : net'.newSlots = net.newSlots := by
  unfold Net.newSlots
  congr 1
  funext j
  rw [(h j).just]

theorem netTakeNewSlot_some {net net' : Net n} {i : Fin n}
    (h : netTakeNewSlot net = (some i, net')) :
    (net.conns i).justEstab = true ∧
      net' = net.set i { net.conns i with justEstab := false } := by
  unfold netTakeNewSlot at h
  split at h
  next hfind =>
    cases h
    exact ⟨List.find?_some (p := fun j => (net.conns j).justEstab) hfind, rfl⟩
  next => cases h

theorem netTakeNewSlot_none {net net' : Net n} (h : netTakeNewSlot net = (none, net')) :
    net' = net ∧ net.NoneNew := by
  unfold netTakeNewSlot at h
  split at h
  next => cases h
  next hfind =>
    cases h
    refine ⟨rfl, fun j => ?_⟩
    simpa using List.find?_eq_none.mp hfind j (List.mem_finRange j)

theorem Net.newSlots_taken {net : Net n} {i : Fin n} (h : (net.conns i).justEstab = true) :
    (net.set i { net.conns i with justEstab := false }).newSlots.card < net.newSlots.card := by
  refine Finset.card_lt_card ⟨fun j hj => ?_, fun hsub => ?_⟩
  · simp only [Net.newSlots, Finset.mem_filter, Finset.mem_univ, true_and] at hj ⊢
    rw [Net.set_conns] at hj
    split at hj
    next hji =>
      subst hji
      exact h
    next => exact hj
  · have hi : i ∈ net.newSlots := by simpa [Net.newSlots] using h
    have hi' := hsub hi
    simp only [Net.newSlots, Finset.mem_filter, Finset.mem_univ, true_and,
      Net.set_conns_self] at hi'
    cases hi'

end Dossh
