import Dossh.Net.Life

/-!
# The timer at midnight

The tick counter of the BIOS goes from `0x1800AF` back to zero once a day.  `tcp_timer` compares it
with `rexmit_at` by the sign of a 32-bit difference, so a timer that was armed shortly before
midnight is due at a value the counter does not reach.

A run is timed by the number of ticks since some midnight.  Every call reads the counter of its
own tick.
-/

namespace Dossh

variable {n : Nat}

/-! ## Timed runs -/

/-- The call reads this value of the counter, if it reads it at all. -/
def NetOp.At (now : BitVec 32) : NetOp n → Prop
  | .poll t _ => t = now
  | .flush t => t = now
  | _ => True

/-- The stack at a tick: calls at one tick read one value of the counter. -/
inductive BiosReach : Nat → Net n → Prop where
  | start (gMac gIp : List UInt8) (myPort t : Nat) : BiosReach t (netOpen gMac gIp myPort)
  | tick {t : Nat} {net : Net n} (h : BiosReach t net) : BiosReach (t + 1) net
  | call {t : Nat} {net : Net n} (op : NetOp n) (hop : op.At (biosTicks t)) (h : BiosReach t net) :
      BiosReach t (op.run net)

/-! ## Arming -/

/-- A call at `now` leaves the timer of a connection or arms it, and arms it for a connection that
is new. -/
def Conn.Rearms (now : BitVec 32) (c c' : Conn) : Prop :=
  (c'.rexmitAt = c.rexmitAt ∧ (c.tstate = .listen → c'.tstate = .listen)) ∨
    c'.rexmitAt = now + REXMIT_TICKS

namespace Conn.Rearms

variable {now : BitVec 32} {c c' c'' : Conn}

theorem same (hat : c'.rexmitAt = c.rexmitAt) (hst : c'.tstate = c.tstate) : c.Rearms now c' :=
  .inl ⟨hat, hst.trans⟩

theorem refl (c : Conn) : c.Rearms now c := same rfl rfl

theorem reset (c : Conn) : c.Rearms now (tcpResetListen c) := .inl ⟨rfl, fun _ => rfl⟩

theorem trans (h : c.Rearms now c') (h' : c'.Rearms now c'') : c.Rearms now c'' := by
  rcases h' with ⟨hat', hst'⟩ | hset'
  · rcases h with ⟨hat, hst⟩ | hset
    · exact .inl ⟨hat'.trans hat, fun hl => hst' (hst hl)⟩
    · exact .inr (hat'.trans hset)
  · exact .inr hset'

theorem of_set {net : Net n} {i : Fin n} (h : (net.conns i).Rearms now c) (j : Fin n) :
    (net.conns j).Rearms now ((net.set i c).conns j) := by
  rw [Net.set_conns]
  split
  next hji =>
    subst hji
    exact h
  next => exact refl _

end Conn.Rearms

theorem Conn.timer_rearms (now : BitVec 32) (c : Conn) : c.Rearms now (c.timer now) := by
  unfold Conn.timer
  split
  · split
    · exact .inl ⟨rfl, fun _ => rfl⟩
    · exact .inr rfl
  · exact .refl c

theorem netTxFlush_rearms (now : BitVec 32) (net : Net n) (j : Fin n) :
    (net.conns j).Rearms now ((netTxFlush now net).conns j) := by
  rcases netTxFlush_rexmitAt now net j with hsame | hset
  · refine .same hsame ?_
    rw [(netTxFlush_conns now net j).same]
  · exact .inr hset

theorem tcpInAck_rearms (now : BitVec 32) (h : TcpHdr) (c : Conn) :
    c.Rearms now (tcpInAck now h c) := by
  unfold tcpInAck
  split
  · exact .inr rfl
  · exact .refl c

theorem tcpInFin_rearms (now : BitVec 32) (net : Net n) (h : TcpHdr) (i : Fin n) :
    (net.conns i).Rearms now ((tcpInFin net h i).conns i) := by
  unfold tcpInFin
  split
  · refine .inl ⟨?_, fun _ => ?_⟩
    · simp [tcpResetListen]
    · simp [tcpResetListen]
  · exact .refl _

theorem tcpInConn_rearms (now : BitVec 32) (f : Nat → UInt8) (net : Net n) (h : TcpHdr)
    (i : Fin n) : (net.conns i).Rearms now ((tcpInConn now f net h i).conns i) := by
  unfold tcpInConn
  split
  · exact .refl _
  next net' hs =>
    have hfirst : (net.conns i).Rearms now (net'.conns i) := by
      unfold tcpInSynrcvd at hs
      dsimp only at hs
      split at hs
      next hst =>
        split at hs
        · cases hs
          rw [Net.set_conns_self]
          exact .inl ⟨rfl, fun hl => by rw [hst] at hl; cases hl⟩
        · cases hs
      next =>
        cases hs
        exact .refl _
    split
    · exact hfirst
    next =>
      refine hfirst.trans ((tcpInAck_rearms now h _).trans (.trans ?_
        (tcpInFin_rearms now _ h i)))
      have hstored := tcpInData_sameButRcv f (net'.set i (tcpInAck now h (net'.conns i))) h i
      rw [Net.set_conns_self] at hstored
      rw [hstored.eq]
      exact .same rfl rfl

theorem tcpIn_rearms (now : BitVec 32) (net : Net n) (f : Nat → UInt8) (j : Fin n) :
    (net.conns j).Rearms now ((tcpIn now net f).conns j) := by
  unfold tcpIn
  dsimp only
  split
  · exact .refl _
  split
  · exact .refl _
  split
  · unfold tcpInRst
    split
    · exact .of_set (.reset _) j
    · exact .refl _
  split
  · unfold tcpInSyn
    split
    · exact .refl _
    · split
      · exact .refl _
      next i _ =>
        by_cases hji : j = i
        · subst hji
          simp only [tcpInSynAccept, Net.set_conns_self]
          exact .inr rfl
        · rw [tcpInSynAccept_other now net _ hji]
          exact .refl _
  · split
    · exact .refl _
    next i _ =>
      by_cases hji : j = i
      · subst hji
        exact tcpInConn_rearms now f net _ j
      · rw [tcpInConn_other now f net _ hji]
        exact .refl _

theorem handleFrame_rearms (now : BitVec 32) (net : Net n) (f : Nat → UInt8) (len : Nat)
    (j : Fin n) : (net.conns j).Rearms now ((handleFrame now net f len).conns j) := by
  cases htcp : tcpFrame net f len with
  | true =>
      rw [handleFrame_tcp now net f len htcp]
      exact tcpIn_rearms now net f j
  | false =>
      rcases handleFrame_other now net f len htcp with heq | heq
      · rw [heq]
        exact .refl _
      · rw [heq]
        unfold arpIn
        dsimp only
        repeat' split
        all_goals exact .refl _

theorem netPoll_rearms (now : BitVec 32) (pkt : Option (List UInt8)) (net : Net n) (j : Fin n) :
    (net.conns j).Rearms now ((netPoll now pkt net).conns j) := by
  have htimer : (net.conns j).Rearms now ((netTimers now net).conns j) := by
    rw [netTimers_conns]
    exact Conn.timer_rearms now _
  refine htimer.trans (Conn.Rearms.trans ?_ (netTxFlush_rearms now _ j))
  unfold netReceive
  split
  · exact .refl _
  next stage =>
    exact handleFrame_rearms now
      { netTimers now net with work := overlay (netTimers now net).work 0 (stage.take WORK_SZ) }
      _ _ j

theorem ringAppend_rearms (kind : TxKind) (net : Net n) (i : Fin n) (b : UInt8)
    (now : BitVec 32) (j : Fin n) :
    (net.conns j).Rearms now ((ringAppend kind net i b).conns j) := by
  refine @Conn.Rearms.of_set n now _ (net.note _) i ?_ j
  exact .same rfl rfl

theorem netTxPutc_rearms (net : Net n) (b : UInt8) (now : BitVec 32) (j : Fin n) :
    (net.conns j).Rearms now ((netTxPutc net b).2.conns j) := by
  have hcheck : ∀ (is : List (Fin n)) (net : Net n),
      (net.conns j).Rearms now ((putcCheck is net).2.conns j) := by
    intro is
    induction is with
    | nil => exact fun _ => .refl _
    | cons i is ih =>
        intro net
        rw [putcCheck]
        repeat' split
        · exact (Conn.Rearms.of_set (.reset _) j).trans (ih _)
        · exact .refl _
        · exact ih net
  have happend : ∀ (is : List (Fin n)) (net : Net n),
      (net.conns j).Rearms now ((is.foldl (putcAppend b) net).conns j) := by
    intro is
    induction is with
    | nil => exact fun _ => .refl _
    | cons i is ih =>
        intro net
        refine Conn.Rearms.trans ?_ (ih (putcAppend b net i))
        unfold putcAppend
        split
        · exact ringAppend_rearms _ net i b now j
        · exact .refl _
  unfold netTxPutc
  dsimp only
  split
  · exact (hcheck _ net).trans (happend _ _)
  · exact hcheck _ net

/-- Every call. -/
theorem NetOp.run_rearms {now : BitVec 32} (op : NetOp n) (hop : op.At now) (net : Net n)
    (j : Fin n) : (net.conns j).Rearms now ((op.run net).conns j) := by
  cases op with
  | poll t pkt =>
      obtain rfl : t = now := hop
      exact netPoll_rearms t pkt net j
  | takeNew =>
      change (net.conns j).Rearms now ((netTakeNewSlot net).2.conns j)
      unfold netTakeNewSlot
      split
      · refine Conn.Rearms.of_set ?_ j
        exact .same rfl rfl
      · exact .refl _
  | putc b => exact netTxPutc_rearms net b now j
  | putcSlot i b =>
      change (net.conns j).Rearms now ((netTxPutcSlot net i b).2.conns j)
      unfold netTxPutcSlot
      split
      · exact .refl _
      · exact ringAppend_rearms _ net i b now j
  | flush t =>
      obtain rfl : t = now := hop
      exact netTxFlush_rearms t net j
  | slotReady i v =>
      change (net.conns j).Rearms now ((netSlotReady net i v).conns j)
      unfold netSlotReady
      dsimp only
      split
      · refine @Conn.Rearms.of_set n now _ (net.note _) i ?_ j
        exact .same rfl rfl
      · refine Conn.Rearms.of_set ?_ j
        exact .same rfl rfl
  | slotDrop i =>
      change (net.conns j).Rearms now ((netSlotDrop net i).conns j)
      unfold netSlotDrop
      dsimp only
      split
      · exact @Conn.Rearms.of_set n now _ (tcpSendSeg net i _ _ _ _) i (.reset _) j
      · exact .of_set (.reset _) j
  | rxGetc i =>
      change (net.conns j).Rearms now ((netRxGetc net i).2.conns j)
      unfold netRxGetc
      dsimp only
      split
      · exact .refl _
      · refine Conn.Rearms.of_set ?_ j
        exact .same rfl rfl

/-- The timer of a connection was armed at some tick. -/
theorem BiosReach.armed_at {t : Nat} {net : Net n} (h : BiosReach t net) (i : Fin n) :
    (net.conns i).tstate ≠ .listen →
      ∃ a ≤ t, (net.conns i).rexmitAt = biosTicks a + REXMIT_TICKS := by
  induction h with
  | start => exact fun hst => absurd rfl hst
  | tick _ ih =>
      intro hst
      obtain ⟨a, ha, hat⟩ := ih hst
      exact ⟨a, Nat.le_succ_of_le ha, hat⟩
  | @call t net op hop _ ih =>
      intro hst
      rcases op.run_rearms hop net i with ⟨hsame, hlisten⟩ | hset
      · obtain ⟨a, ha, hat⟩ := ih fun hl => hst (hlisten hl)
        exact ⟨a, ha, hsame.trans hat⟩
      · exact ⟨t, le_rfl, hset⟩

/-! ## Firing -/

/-- The connection has unacknowledged sequence space and its timer is set to `at'`. -/
structure Conn.Pending (c : Conn) (at' : BitVec 32) : Prop where
  live : c.tstate ≠ .listen
  unacked : 0 < (c.sndNxt - c.sndUna).toInt
  timer : c.rexmitAt = at'

/-- `tcp_timer` fires for slot `i` in a call. -/
def NetOp.fires (i : Fin n) (net : Net n) : NetOp n → Bool
  | .poll now _ => (net.conns i).expired now
  | _ => false

/-- The timer of slot `i` fires in some of the calls. -/
def FiresIn (i : Fin n) : List (NetOp n) → Net n → Prop
  | [], _ => False
  | op :: ops, net => op.fires i net = true ∨ FiresIn i ops (op.run net)

/-- Until it fires, the timer of slot `i` is neither armed again nor stopped by the calls. -/
def LeftPending (i : Fin n) : List (NetOp n) → Net n → Prop
  | [], _ => True
  | op :: ops, net =>
      op.fires i net = true ∨
        ((op.run net).conns i).Pending (net.conns i).rexmitAt ∧ LeftPending i ops (op.run net)

/-- The call is a `net_poll`. -/
def NetOp.isPoll : NetOp n → Bool
  | .poll _ _ => true
  | _ => false

instance (c : Conn) (at' : BitVec 32) : Decidable (c.Pending at') :=
  decidable_of_iff (c.tstate ≠ .listen ∧ 0 < (c.sndNxt - c.sndUna).toInt ∧ c.rexmitAt = at')
    ⟨fun h => ⟨h.1, h.2.1, h.2.2⟩, fun h => ⟨h.live, h.unacked, h.timer⟩⟩

instance decidableLeftPending (i : Fin n) : ∀ (ops : List (NetOp n)) (net : Net n),
    Decidable (LeftPending i ops net)
  | [], _ => .isTrue trivial
  | op :: ops, net =>
      have := decidableLeftPending i ops (op.run net)
      inferInstanceAs (Decidable (_ ∨ _))

/-- The ticks of the polls in a timed list of calls. -/
def pollTicks (ops : List (Nat × NetOp n)) : List Nat :=
  (ops.filter fun p => p.2.isPoll).map Prod.fst

theorem Conn.Pending.expired_iff {c : Conn} {a : Nat}
    (h : c.Pending (biosTicks a + REXMIT_TICKS)) (t : Nat) :
    c.expired (biosTicks t) = true ↔ a % DAY_TICKS + 9 ≤ t % DAY_TICKS := by
  have hdue := @Clock.due_iff DAY_TICKS t a (by decide) 9 (by decide)
  simp only [Conn.expired, Bool.and_eq_true, decide_eq_true_eq]
  rw [h.timer]
  exact ⟨fun hex => hdue.mp hex.2, fun hle => ⟨⟨h.live, h.unacked⟩, hdue.mpr hle⟩⟩

/-- The timer fires in one of the calls exactly if one of the polls reads a value it is due at. -/
theorem firesIn_iff {i : Fin n} {a : Nat} : ∀ {calls : List (Nat × NetOp n)} {net : Net n},
    (net.conns i).Pending (biosTicks a + REXMIT_TICKS) →
    (∀ p ∈ calls, p.2.At (biosTicks p.1)) → LeftPending i (calls.map Prod.snd) net →
      (FiresIn i (calls.map Prod.snd) net ↔
        ∃ u ∈ pollTicks calls, a % DAY_TICKS + 9 ≤ u % DAY_TICKS)
  | [], _, _, _, _ => iff_of_false id nofun
  | (u, op) :: calls, net, hp, hat, hleft => by
      obtain ⟨hop, hat⟩ := List.forall_mem_cons.mp hat
      have hfires : op.fires i net = true ↔
          op.isPoll = true ∧ a % DAY_TICKS + 9 ≤ u % DAY_TICKS := by
        cases op with
        | poll now pkt =>
            obtain rfl : now = biosTicks u := hop
            exact (hp.expired_iff u).trans (by simp [NetOp.isPoll])
        | _ => exact iff_of_false Bool.false_ne_true fun h => Bool.false_ne_true h.1
      have hticks : (∃ v ∈ pollTicks ((u, op) :: calls), a % DAY_TICKS + 9 ≤ v % DAY_TICKS) ↔
          (op.isPoll = true ∧ a % DAY_TICKS + 9 ≤ u % DAY_TICKS) ∨
            ∃ v ∈ pollTicks calls, a % DAY_TICKS + 9 ≤ v % DAY_TICKS := by
        unfold pollTicks
        rw [List.filter_cons]
        cases op.isPoll <;> simp
      rw [hticks, ← hfires]
      rcases hleft with hnow | ⟨hstill, hleft⟩
      · exact iff_of_true (.inl hnow) (.inl hnow)
      · rw [hp.timer] at hstill
        exact or_congr Iff.rfl (firesIn_iff hstill hat hleft)

theorem exists_late {a : Nat} : ∀ {us : List Nat}, us.Pairwise (· < ·) → (∀ u ∈ us, a < u) →
    us ≠ [] → ∃ u ∈ us, a + us.length ≤ u
  | [u], _, hafter, _ => ⟨u, List.mem_cons_self, hafter u List.mem_cons_self⟩
  | u :: v :: us, hsorted, hafter, _ => by
      obtain ⟨hu, hsorted⟩ := List.pairwise_cons.mp hsorted
      have hlater : ∀ w ∈ v :: us, a + 1 < w := fun w hw => by
        have := hafter u List.mem_cons_self
        have := hu w hw
        omega
      obtain ⟨w, hw, hle⟩ := exists_late hsorted hlater (List.cons_ne_nil v us)
      refine ⟨w, List.mem_cons_of_mem u hw, ?_⟩
      simp only [List.length_cons] at hle ⊢
      omega

/-- **Retransmission at midnight.**  Take a reachable connection with unacknowledged sequence
space whose timer was armed at tick `a`, and any calls that neither arm it again nor stop it.  It
fires in one of them exactly if one of the polls reads a counter value at least nine above the one
at tick `a`.  That is so for ten polls at different ticks of the day of `a`. -/
theorem rexmit_at_midnight {t : Nat} {net : Net n} (h : BiosReach t net) {i : Fin n}
    (hlive : (net.conns i).tstate ≠ .listen)
    (hunacked : 0 < ((net.conns i).sndNxt - (net.conns i).sndUna).toInt) :
    (∃ a ≤ t, (net.conns i).rexmitAt = biosTicks a + REXMIT_TICKS) ∧
      ∀ a, (net.conns i).rexmitAt = biosTicks a + REXMIT_TICKS →
        ∀ calls : List (Nat × NetOp n), (∀ p ∈ calls, p.2.At (biosTicks p.1)) →
          LeftPending i (calls.map Prod.snd) net →
          (FiresIn i (calls.map Prod.snd) net ↔
              ∃ u ∈ pollTicks calls, a % DAY_TICKS + 9 ≤ u % DAY_TICKS) ∧
            ((pollTicks calls).Pairwise (· < ·) → 10 ≤ (pollTicks calls).length →
              (∀ u ∈ pollTicks calls, a < u ∧ u / DAY_TICKS = a / DAY_TICKS) →
                FiresIn i (calls.map Prod.snd) net) := by
  refine ⟨h.armed_at i hlive, fun a hat calls hcalls hleft => ?_⟩
  have hiff := firesIn_iff ⟨hlive, hunacked, hat⟩ hcalls hleft
  refine ⟨hiff, fun hsorted hlen hday => hiff.mpr ?_⟩
  have hne : pollTicks calls ≠ [] := by
    intro hnil
    rw [hnil] at hlen
    cases hlen
  obtain ⟨u, hu, hle⟩ := exists_late hsorted (fun u hu => (hday u hu).1) hne
  obtain ⟨hafter, hsame⟩ := hday u hu
  have hmod := Clock.mod_same_day (le_of_lt hafter) hsame
  exact ⟨u, hu, by omega⟩

/-- A SYN arrives at tick `t`. -/
def synAt (t : Nat) : Net 3 :=
  (NetOp.poll (biosTicks t) (some (peerFrame [10, 0, 2, 2] [10, 0, 2, 15] 4000 23 100 0 0x02 []))).run
    (netOpen [2, 0, 0, 0, 0, 1] [10, 0, 2, 15] 23)

theorem synAt_reach (t : Nat) : BiosReach t (synAt t) := .call _ rfl (.start _ _ _ t)

/-- Ten polls at the ticks after `t`. -/
def tenPolls (t : Nat) : List (Nat × NetOp 3) :=
  (List.range 10).map fun k => (t + 1 + k, .poll (biosTicks (t + 1 + k)) none)

theorem tenPolls_at (t : Nat) : ∀ p ∈ tenPolls t, p.2.At (biosTicks p.1) := by
  intro p hp
  obtain ⟨k, -, rfl⟩ := List.mem_map.mp hp
  rfl

/-- The SYN|ACK of a SYN that came at noon is sent again. -/
theorem rexmit_at_midnight_noon :
    BiosReach 786520 (synAt 786520) ∧ ((synAt 786520).conns 0).tstate ≠ .listen ∧
      0 < (((synAt 786520).conns 0).sndNxt - ((synAt 786520).conns 0).sndUna).toInt ∧
      FiresIn 0 ((tenPolls 786520).map Prod.snd) (synAt 786520) := by
  have hpending : ((synAt 786520).conns 0).Pending (biosTicks 786520 + REXMIT_TICKS) := by
    decide +kernel
  have hleft : LeftPending 0 ((tenPolls 786520).map Prod.snd) (synAt 786520) := by decide +kernel
  have hmain := (rexmit_at_midnight (synAt_reach 786520) hpending.live hpending.unacked).2 786520
    hpending.timer (tenPolls 786520) (tenPolls_at 786520) hleft
  exact ⟨synAt_reach 786520, hpending.live, hpending.unacked,
    hmain.2 (by decide) (by decide) (by decide)⟩

/-- The SYN|ACK of a SYN that came at the last tick of a day is not sent again in the ten polls
after it. -/
theorem midnight_suppresses :
    BiosReach 0x1800AF (synAt 0x1800AF) ∧
      ((synAt 0x1800AF).conns 0).Pending (biosTicks 0x1800AF + REXMIT_TICKS) ∧
      LeftPending 0 ((tenPolls 0x1800AF).map Prod.snd) (synAt 0x1800AF) ∧
      (pollTicks (tenPolls 0x1800AF)).Pairwise (· < ·) ∧
      (pollTicks (tenPolls 0x1800AF)).length = 10 ∧
      ¬ FiresIn 0 ((tenPolls 0x1800AF).map Prod.snd) (synAt 0x1800AF) := by
  have hpending : ((synAt 0x1800AF).conns 0).Pending (biosTicks 0x1800AF + REXMIT_TICKS) := by
    decide +kernel
  have hleft : LeftPending 0 ((tenPolls 0x1800AF).map Prod.snd) (synAt 0x1800AF) := by
    decide +kernel
  refine ⟨synAt_reach _, hpending, hleft, by decide, by decide, ?_⟩
  rw [firesIn_iff hpending (tenPolls_at 0x1800AF) hleft]
  decide

end Dossh
