import Dossh.Net.Life
import Dossh.Ssh.Run
import Dossh.Worker.Model

/-!
# Pacing and eviction in the SSH broadcast

The first loop of a round of `ssh_net_broadcast` takes the size of the chunk from the tightest
ready slot.  A slot stops the round when `SSH_RING_RESERVE + 40` bytes of its ring are all that is
left, while `net_slot_stalled`, by which a dead one is evicted, asks for a full ring as
`net_tx_putc` does.
-/

namespace Dossh

variable {n : Nat}

namespace Worker

/-- `netcap`: the bytes of a chunk for which the ring of slot `i` has room. -/
def netcap (w : Worker n) (i : Fin n) : Nat :=
  if netTxRoomSlot w.net i > SSH_RING_RESERVE + 40 then
    netTxRoomSlot w.net i - SSH_RING_RESERVE - 40
  else 0

/-- A ready slot whose peer has stopped acknowledging and whose ring has no room for a chunk. -/
def dead (w : Worker n) (i : Fin n) : Bool :=
  w.eligible i && ((w.net.conns i).rexmitCount > 0 && w.netcap i = 0)

/-- The ring of slot `i` is full. -/
def full (w : Worker n) (i : Fin n) : Prop := (w.net.conns i).used ≥ SND_SZ - 1

/-- The first loop of a round evicts slot `i`. -/
def evicts (w : Worker n) (i : Fin n) : Bool :=
  w.eligible i && (w.slotCap i = 0 && netSlotStalled w.net i)

/-- The tightest of some slots, and at most `cap`. -/
def tightest (w : Worker n) (cap : Nat) (is : List (Fin n)) : Nat :=
  is.foldl (fun cap i => min cap (w.slotCap i)) cap

/-- The first loop of a round that starts in `w`. -/
def sized (w : Worker n) : Nat × Bool × Worker n :=
  capLoop (List.finRange n) SSH_CHAN_CHUNK false w

/-- Slot `i` is out of use. -/
def Dropped (w : Worker n) (i : Fin n) : Prop :=
  w.active i = false ∧ (w.net.conns i).tstate = .listen

/-- The policy for dead clients in a round that starts in `w`, of a call that ends in `last`:
they are dropped, and the other ready slots alone set the size of the chunk. -/
structure DropsDead (last w : Worker n) : Prop where
  dropped : ∀ i, w.dead i = true → last.Dropped i
  chunk : w.sized.1 =
    w.tightest SSH_CHAN_CHUNK ((List.finRange n).filter fun i => w.eligible i && !w.dead i)

/-- What the first loop reads of slot `i` is the same. -/
structure SameAt (w w' : Worker n) (i : Fin n) : Prop where
  active : w'.active i = w.active i
  conn : w'.net.conns i = w.net.conns i
  slot : w'.slots i = w.slots i

namespace SameAt

variable {w w' w'' : Worker n} {i : Fin n}

theorem refl (w : Worker n) (i : Fin n) : SameAt w w i := ⟨rfl, rfl, rfl⟩

theorem trans (h : SameAt w w' i) (h' : SameAt w' w'' i) : SameAt w w'' i :=
  ⟨h'.active.trans h.active, h'.conn.trans h.conn, h'.slot.trans h.slot⟩

theorem eligible (h : SameAt w w' i) : w'.eligible i = w.eligible i := by
  simp only [Worker.eligible, netSlotConnected, h.active, h.conn, h.slot]

theorem slotCap (h : SameAt w w' i) : w'.slotCap i = w.slotCap i := by
  unfold Worker.slotCap netTxRoomSlot
  rw [h.conn, h.slot]

theorem evicts (h : SameAt w w' i) : w'.evicts i = w.evicts i := by
  simp only [Worker.evicts, h.eligible, h.slotCap, netSlotStalled, h.conn]

end SameAt

/-- Slot `i` is evicted. -/
def evict (w : Worker n) (i : Fin n) : Worker n :=
  { w with net := netSlotDrop w.net i }.setActive i false

theorem evict_same (w : Worker n) {i j : Fin n} (hj : j ≠ i) : SameAt w (w.evict i) j := by
  refine ⟨Function.update_of_ne hj _ _, ?_, rfl⟩
  change (netSlotDrop w.net i).conns j = w.net.conns j
  unfold netSlotDrop
  dsimp only
  split <;> simp [tcpSendSeg, hj]

theorem evict_self (w : Worker n) (i : Fin n) : (w.evict i).Dropped i := by
  refine ⟨Function.update_self i _ _, ?_⟩
  change ((netSlotDrop w.net i).conns i).tstate = .listen
  unfold netSlotDrop
  dsimp only
  rw [Net.set_conns_self]
  rfl

/-- One turn of the first loop. -/
theorem capLoop_cons (i : Fin n) (is : List (Fin n)) (cap : Nat) (any : Bool) (w : Worker n) :
    capLoop (i :: is) cap any w =
      if w.evicts i then capLoop is cap true (w.evict i)
      else if w.eligible i then capLoop is (min cap (w.slotCap i)) true w
      else capLoop is cap any w := by
  rw [capLoop]
  unfold evicts
  cases w.eligible i with
  | false => rfl
  | true =>
      simp only [Bool.not_true, Bool.false_eq_true, if_false, Bool.true_and, if_true]
      split
      · rfl
      · congr 1
        rw [Nat.min_def]
        split <;> split <;> omega

/-- The state in which the loop goes on from one slot. -/
def passed (w : Worker n) (i : Fin n) : Worker n := if w.evicts i then w.evict i else w

theorem passed_same (w : Worker n) {i j : Fin n} (hj : j ≠ i ∨ w.evicts i = false) :
    SameAt w (w.passed i) j := by
  unfold passed
  split
  next hev =>
    rcases hj with hj | hno
    · exact w.evict_same hj
    · rw [hev] at hno
      cases hno
  next => exact SameAt.refl w j

theorem capLoop_passed (i : Fin n) (is : List (Fin n)) (cap : Nat) (any : Bool) (w : Worker n) :
    ∃ any', capLoop (i :: is) cap any w =
      capLoop is (if w.eligible i && !w.evicts i then min cap (w.slotCap i) else cap) any'
        (w.passed i) := by
  rw [capLoop_cons]
  unfold passed
  cases hev : w.evicts i with
  | true => exact ⟨true, by simp⟩
  | false =>
      cases w.eligible i with
      | true => exact ⟨true, by simp⟩
      | false => exact ⟨any, by simp⟩

/-- A slot that is not evicted is left alone. -/
theorem capLoop_same : ∀ (is : List (Fin n)) (cap : Nat) (any : Bool) {w : Worker n} {j : Fin n},
    (w.evicts j = true → j ∉ is) → SameAt w (capLoop is cap any w).2.2 j
  | [], _, _, w, j, _ => SameAt.refl w j
  | i :: is, cap, any, w, j, hj => by
      obtain ⟨any', hstep⟩ := capLoop_passed i is cap any w
      have hpass : SameAt w (w.passed i) j := by
        refine w.passed_same ?_
        by_cases hji : j = i
        · subst hji
          right
          by_contra hev
          exact hj (Bool.eq_true_of_not_eq_false hev) List.mem_cons_self
        · exact .inl hji
      rw [hstep]
      refine hpass.trans (capLoop_same is _ any' fun hev hmem => ?_)
      rw [hpass.evicts] at hev
      exact hj hev (List.mem_cons_of_mem i hmem)

/-- A slot that is evicted is dropped. -/
theorem capLoop_evicted : ∀ (is : List (Fin n)) (cap : Nat) (any : Bool) {w : Worker n}
    {j : Fin n}, j ∈ is → w.evicts j = true → (capLoop is cap any w).2.2.Dropped j
  | [], _, _, _, _, hj, _ => absurd hj List.not_mem_nil
  | i :: is, cap, any, w, j, hj, hev => by
      obtain ⟨any', hstep⟩ := capLoop_passed i is cap any w
      rw [hstep]
      by_cases hji : j = i
      · -- once evicted it is out of the loop
        subst hji
        obtain ⟨hactive, hlisten⟩ := w.evict_self j
        have hpass : w.passed j = w.evict j := if_pos hev
        have hout : (w.evict j).evicts j = true → j ∉ is := by
          simp [evicts, eligible, hactive]
        have hsame := capLoop_same is
          (if w.eligible j && !w.evicts j then min cap (w.slotCap j) else cap) any' hout
        rw [hpass]
        exact ⟨hsame.active.trans hactive, hsame.conn ▸ hlisten⟩
      · have hmem : j ∈ is := by
          rcases List.mem_cons.mp hj with h | h
          · exact absurd h hji
          · exact h
        exact capLoop_evicted is _ any' hmem ((w.passed_same (.inl hji)).evicts.trans hev)

/-- The slots that are not evicted set the size of the chunk. -/
theorem capLoop_fst {w₀ : Worker n} : ∀ (is : List (Fin n)) (cap : Nat) (any : Bool)
    {w : Worker n}, is.Nodup → (∀ j ∈ is, SameAt w₀ w j) →
      (capLoop is cap any w).1 =
        w₀.tightest cap (is.filter fun j => w₀.eligible j && !w₀.evicts j)
  | [], _, _, _, _, _ => rfl
  | i :: is, cap, any, w, hnodup, hsame => by
      obtain ⟨hi, hnodup⟩ := List.nodup_cons.mp hnodup
      obtain ⟨any', hstep⟩ := capLoop_passed i is cap any w
      have hhere := hsame i List.mem_cons_self
      have hlater : ∀ j ∈ is, SameAt w₀ (w.passed i) j := fun j hj =>
        (hsame j (List.mem_cons_of_mem i hj)).trans
          (w.passed_same (.inl fun hji => hi (hji ▸ hj)))
      rw [hstep, capLoop_fst is _ any' hnodup hlater, hhere.eligible, hhere.evicts,
        hhere.slotCap, List.filter_cons]
      cases w₀.eligible i && !w₀.evicts i with
      | true => rfl
      | false => rfl

/-! ## Dead slots -/

theorem netcap_of_full {w : Worker n} {i : Fin n} (h : w.full i) : w.netcap i = 0 := by
  have hroom : netTxRoomSlot w.net i = 0 := Nat.sub_eq_zero_of_le h
  rw [netcap, hroom]
  rfl

theorem slotCap_of_netcap {w : Worker n} {i : Fin n} (h : w.netcap i = 0) : w.slotCap i = 0 := by
  unfold netcap at h
  unfold slotCap
  dsimp only
  rw [h]
  split <;> omega

/-- The slots evicted are the dead ones with a full ring. -/
theorem evicts_iff (w : Worker n) (i : Fin n) :
    w.evicts i = true ↔ w.dead i = true ∧ w.full i := by
  simp only [evicts, dead, netSlotStalled, full, eligible, netSlotConnected, Bool.and_eq_true,
    decide_eq_true_eq]
  constructor
  · rintro ⟨hel, -, -, hfull, hrex⟩
    exact ⟨⟨hel, hrex, netcap_of_full hfull⟩, hfull⟩
  · rintro ⟨⟨hel, hrex, hcap⟩, hfull⟩
    exact ⟨hel, slotCap_of_netcap hcap, hel.1.2, hfull, hrex⟩

/-! ## A call of `ssh_net_broadcast` -/

end Worker

/-- The sizes of the chunks of all rounds, the newest first. -/
def Worker.roundSizes (w : Worker n) : List Nat := w.hist.rounds.map (·.data.length)

/-- A round of a call of `ssh_net_broadcast` starts in `w'`: with as much fuel as there were rounds
before it the loop comes to `w'`, and these have not used up the budget. -/
def RoundStart (env : SshEnv) (s : Screen) (w w' : Worker n) : Prop :=
  ∃ sizes, w'.roundSizes = sizes ++ w.roundSizes ∧ sizes.sum < SSH_TX_BUDGET ∧
    broadcastLoop env s sizes.length SSH_TX_BUDGET w = w'

namespace Worker

variable {env : SshEnv} {s : Screen}

theorem putcs_conns_ne {i j : Fin n} (hj : j ≠ i) : ∀ (bs : List UInt8) (net : Net n),
    (putcs i bs net).2.conns j = net.conns j
  | [], _ => rfl
  | b :: bs, net => by
      rw [putcs, putcs_conns_ne hj bs, netTxPutcSlot]
      split
      · rfl
      · simp [ringAppend, hj]

/-- A slot that does not take part gets nothing. -/
theorem emitSlot_same (env : SshEnv) (plain : List UInt8) (w : Worker n) (i : Fin n) {j : Fin n}
    (hj : w.active j = false) : SameAt w (emitSlot env plain w i) j := by
  unfold emitSlot
  split
  · exact SameAt.refl w j
  next hel =>
    have hji : j ≠ i := by
      rintro rfl
      simp [eligible, hj] at hel
    exact ⟨rfl, putcs_conns_ne hji _ _, Function.update_of_ne hji _ _⟩

theorem emitRound_same (env : SshEnv) (plain : List UInt8) (w : Worker n) {j : Fin n}
    (hj : w.active j = false) : SameAt w (emitRound env plain w) j := by
  have hfold : ∀ (is : List (Fin n)) (w : Worker n), w.active j = false →
      SameAt w (is.foldl (emitSlot env plain) w) j := by
    intro is
    induction is with
    | nil => exact fun w _ => SameAt.refl w j
    | cons i is ih =>
        intro w hj
        have hstep := emitSlot_same env plain w i hj
        exact hstep.trans (ih _ (hstep.active.trans hj))
  unfold emitRound
  generalize hw₁ : ({ w with hist := { w.hist with rounds := _ } } : Worker n) = w₁
  have hw : SameAt w w₁ j := by
    rw [← hw₁]
    exact ⟨rfl, rfl, rfl⟩
  exact hw.trans (hfold _ w₁ (hw.active.trans hj))

/-- A slot out of use after the first loop stays so if later rounds leave it so. -/
theorem Dropped.round {w : Worker n} {j : Fin n} (h : w.sized.2.2.Dropped j) {fuel : Nat}
    (hlater : ∀ (w : Worker n) (budget : Nat), w.Dropped j →
      (broadcastLoop env s fuel budget w).Dropped j) (budget : Nat) :
    (broadcastLoop env s (fuel + 1) budget w).Dropped j := by
  rw [broadcastLoop]
  unfold sized at h
  generalize capLoop (List.finRange n) SSH_CHAN_CHUNK false w = r at h ⊢
  dsimp only
  generalize (if r.1 > budget then budget else r.1) = cap
  split
  · exact h
  split
  · exact h
  split
  · exact h
  generalize pullLoop s cap r.2.2.render = p
  split
  · exact h
  have hemit := emitRound_same env p.1 { r.2.2 with render := p.2 } h.1
  have hround : (emitRound env p.1 { r.2.2 with render := p.2 }).Dropped j :=
    ⟨hemit.active.trans h.1, hemit.conn ▸ h.2⟩
  split
  · exact hround
  · exact hlater _ _ hround

/-- A slot out of use stays so to the end of the call. -/
theorem Dropped.stays {j : Fin n} : ∀ (fuel : Nat) (w : Worker n) (budget : Nat), w.Dropped j →
    (broadcastLoop env s fuel budget w).Dropped j
  | 0, _, _, h => h
  | fuel + 1, w, budget, h => by
      have hno : w.evicts j = true → j ∉ List.finRange n := by
        simp [evicts, eligible, h.1]
      have hsame := capLoop_same (List.finRange n) SSH_CHAN_CHUNK false hno
      have hsized : w.sized.2.2.Dropped j := ⟨hsame.active.trans h.1, hsame.conn ▸ h.2⟩
      exact hsized.round (Dropped.stays fuel) budget

theorem capLoop_rounds : ∀ (is : List (Fin n)) (cap : Nat) (any : Bool) (w : Worker n),
    (capLoop is cap any w).2.2.roundSizes = w.roundSizes
  | [], _, _, _ => rfl
  | i :: is, cap, any, w => by
      obtain ⟨any', hstep⟩ := capLoop_passed i is cap any w
      rw [hstep, capLoop_rounds is]
      unfold passed
      split <;> rfl

theorem emitSlot_rounds (env : SshEnv) (plain : List UInt8) (w : Worker n) (i : Fin n) :
    (emitSlot env plain w i).roundSizes = w.roundSizes := by
  unfold emitSlot
  split
  · rfl
  · dsimp only [noteEmit, roundSizes, Worker.setSsh]
    cases w.hist.rounds <;> rfl

/-- A round records the size of its chunk. -/
theorem emitRound_rounds (env : SshEnv) (plain : List UInt8) (w : Worker n) :
    (emitRound env plain w).roundSizes = plain.length :: w.roundSizes := by
  have hfold : ∀ (is : List (Fin n)) (w : Worker n),
      (is.foldl (emitSlot env plain) w).roundSizes = w.roundSizes := by
    intro is
    induction is with
    | nil => exact fun _ => rfl
    | cons i is ih => exact fun w => (ih _).trans (emitSlot_rounds env plain w i)
  unfold emitRound
  exact hfold _ _

/-- One turn of the loop: it ends without a round, or it makes one and the loop ends or goes on
with what is left of the budget. -/
theorem broadcastLoop_turn (env : SshEnv) (s : Screen) (budget : Nat) (w : Worker n) :
    (∃ w₁ : Worker n, w₁.roundSizes = w.roundSizes ∧
      ∀ fuel, broadcastLoop env s (fuel + 1) budget w = w₁) ∨
    ∃ (w₁ : Worker n) (size : Nat), 0 < size ∧ w₁.roundSizes = size :: w.roundSizes ∧
      ∀ fuel, broadcastLoop env s (fuel + 1) budget w =
        if budget - size = 0 then w₁ else broadcastLoop env s fuel (budget - size) w₁ := by
  have hsizes := capLoop_rounds (List.finRange n) SSH_CHAN_CHUNK false w
  simp only [Dossh.broadcastLoop]
  generalize capLoop (List.finRange n) SSH_CHAN_CHUNK false w = r at hsizes ⊢
  generalize (if r.1 > budget then budget else r.1) = cap
  generalize pullLoop s cap r.2.2.render = p
  by_cases hstop : (!r.2.1) = true ∨ r.1 = 0 ∨ cap = 0
  · refine .inl ⟨r.2.2, hsizes, fun fuel => ?_⟩
    rcases hstop with hany | hzero | hcap
    · rw [if_pos hany]
    · rw [if_pos hzero, ite_self]
    · rw [if_pos hcap, ite_self, ite_self]
  obtain ⟨hany, hzero, hcap⟩ : ¬ (!r.2.1) = true ∧ ¬ r.1 = 0 ∧ ¬ cap = 0 := by tauto
  simp only [if_neg hany, if_neg hzero, if_neg hcap]
  by_cases hnil : p.1 = []
  · exact .inl ⟨{ r.2.2 with render := p.2 }, hsizes, fun fuel => if_pos hnil⟩
  · refine .inr ⟨emitRound env p.1 { r.2.2 with render := p.2 }, p.1.length,
      List.length_pos_of_ne_nil hnil, ?_, fun fuel => if_neg hnil⟩
    rw [emitRound_rounds]
    exact congrArg _ hsizes

/-- The loop adds rounds to those that were. -/
theorem broadcastLoop_rounds : ∀ (fuel budget : Nat) (w : Worker n),
    ∃ sizes, (broadcastLoop env s fuel budget w).roundSizes = sizes ++ w.roundSizes
  | 0, _, _ => ⟨[], rfl⟩
  | fuel + 1, budget, w => by
      rcases broadcastLoop_turn env s budget w with ⟨w₁, hsame, hloop⟩ | ⟨w₁, size, -, hsize, hloop⟩
      · exact ⟨[], by rw [hloop, hsame, List.nil_append]⟩
      · rw [hloop]
        split
        · exact ⟨[size], hsize⟩
        · obtain ⟨sizes, hrest⟩ := broadcastLoop_rounds fuel (budget - size) w₁
          exact ⟨sizes ++ [size], by rw [hrest, hsize, List.append_assoc]; rfl⟩

/-- The loop goes on from the state after some rounds if there is budget left. -/
theorem broadcastLoop_resume {w' : Worker n} : ∀ (k fuel budget : Nat) {w : Worker n}
    {sizes : List Nat}, sizes.length = k → w'.roundSizes = sizes ++ w.roundSizes →
      sizes.sum < budget → budget ≤ fuel → broadcastLoop env s k budget w = w' →
      ∃ fuel' budget', broadcastLoop env s fuel budget w =
        broadcastLoop env s (fuel' + 1) budget' w'
  | k, 0, _, _, _, _, _, hsum, hfuel, _ => by omega
  | 0, fuel + 1, budget, _, _, _, _, _, _, hw' => ⟨fuel, budget, by rw [← hw']; rfl⟩
  | k + 1, fuel + 1, budget, w, sizes, hk, hsizes, hsum, hfuel, hw' => by
      rcases broadcastLoop_turn env s budget w with
        ⟨w₁, hsame, hloop⟩ | ⟨w₁, size, hpos, hsize, hloop⟩
      · -- no round was made
        rw [← hw', hloop, hsame, List.self_eq_append_left] at hsizes
        rw [hsizes] at hk
        cases hk
      · rw [hloop] at hw' ⊢
        obtain ⟨more, hmore⟩ : ∃ more, w'.roundSizes = more ++ w₁.roundSizes := by
          rw [← hw']
          split
          · exact ⟨[], rfl⟩
          · exact broadcastLoop_rounds k (budget - size) w₁
        have hsplit : sizes = more ++ [size] := by
          rw [hmore, hsize, List.append_cons] at hsizes
          exact (List.append_cancel_right hsizes).symm
        rw [hsplit, List.sum_append, List.sum_singleton] at hsum
        rw [hsplit, List.length_append, List.length_singleton] at hk
        rw [if_neg (by omega)] at hw' ⊢
        exact broadcastLoop_resume k fuel (budget - size) (by omega) hmore (by omega) (by omega) hw'

/-- The call goes on from the start of a round. -/
theorem broadcastLoop_of_start {w w' : Worker n} (h : RoundStart env s w w') :
    ∃ fuel budget, sshNetBroadcast env s w = broadcastLoop env s (fuel + 1) budget w' := by
  obtain ⟨sizes, hsizes, hsum, hw'⟩ := h
  exact broadcastLoop_resume _ _ _ rfl hsizes hsum le_rfl hw'

theorem tightest_le {w : Worker n} {i : Fin n} : ∀ {is : List (Fin n)} {cap : Nat},
    (i ∈ is → w.tightest cap is ≤ w.slotCap i) ∧ w.tightest cap is ≤ cap
  | [], _ => ⟨nofun, le_rfl⟩
  | j :: is, cap => by
      have ih := @tightest_le w i is (min cap (w.slotCap j))
      obtain ⟨hmem, hle⟩ := ih
      refine ⟨fun h => ?_, hle.trans (Nat.min_le_left _ _)⟩
      rcases List.mem_cons.mp h with rfl | h
      · exact hle.trans (Nat.min_le_right _ _)
      · exact hmem h

/-- A dead slot whose ring is not full ends the call, and is kept. -/
theorem dead_kept {w : Worker n} {i : Fin n} (hdead : w.dead i = true) (hfull : ¬ w.full i)
    (fuel budget : Nat) : (broadcastLoop env s (fuel + 1) budget w).active i = true := by
  have hev : w.evicts i = false := by
    by_contra hev
    exact hfull ((w.evicts_iff i).mp (Bool.eq_true_of_not_eq_false hev)).2
  simp only [dead, Bool.and_eq_true, decide_eq_true_eq] at hdead
  obtain ⟨hel, -, hcap⟩ := hdead
  have hactive : w.sized.2.2.active i = true := by
    have hsame := capLoop_same (List.finRange n) SSH_CHAN_CHUNK false
      (j := i) (w := w) (by simp [hev])
    simp only [eligible, Bool.and_eq_true] at hel
    exact hsame.active.trans hel.1.1
  have hzero : w.sized.1 = 0 := by
    have hfst := capLoop_fst (List.finRange n) SSH_CHAN_CHUNK false (List.nodup_finRange n)
      fun j _ => SameAt.refl w j
    have hmem : i ∈ (List.finRange n).filter fun j => w.eligible j && !w.evicts j := by
      simp [hel, hev]
    have hle := (@tightest_le n w i _ SSH_CHAN_CHUNK).1 hmem
    rw [slotCap_of_netcap hcap] at hle
    exact hfst.trans (Nat.le_zero.mp hle)
  rw [broadcastLoop]
  unfold sized at hactive hzero
  dsimp only
  rw [hzero]
  split <;> exact hactive

end Worker

/-- **Dead SSH clients.**  In every round of a call of `ssh_net_broadcast` the dead slots are
dropped and do not pace the others, exactly if in every round the rings of the dead slots are
full. -/
theorem ssh_broadcast_drops_dead (env : SshEnv) (s : Screen) (w : Worker n) :
    (∀ w', RoundStart env s w w' → Worker.DropsDead (sshNetBroadcast env s w) w') ↔
      ∀ w', RoundStart env s w w' → ∀ i, w'.dead i = true → w'.full i := by
  refine forall₂_congr fun w' hstart => ?_
  obtain ⟨fuel, budget, hcall⟩ := Worker.broadcastLoop_of_start hstart
  rw [hcall]
  constructor
  · rintro ⟨hdropped, -⟩ i hdead
    by_contra hfull
    have hkept := @Worker.dead_kept n env s w' i hdead hfull fuel budget
    rw [(hdropped i hdead).1] at hkept
    cases hkept
  · intro hfull
    have hsame : ∀ i, w'.evicts i = w'.dead i := fun i => by
      rw [Bool.eq_iff_iff, w'.evicts_iff i]
      exact ⟨fun h => h.1, fun h => ⟨h, hfull i h⟩⟩
    refine ⟨fun i hdead => ?_, ?_⟩
    · have hsized : w'.sized.2.2.Dropped i :=
        Worker.capLoop_evicted _ _ _ (List.mem_finRange i) ((hsame i).trans hdead)
      exact hsized.round (Worker.Dropped.stays fuel) budget
    · have hfst := Worker.capLoop_fst (List.finRange n) SSH_CHAN_CHUNK false
        (List.nodup_finRange n) fun j _ => Worker.SameAt.refl w' j
      simp only [hsame] at hfst
      exact hfst

/-- An open shell of a client with a large window. -/
def openShell : SshConn :=
  { SshConn.zero with
    chanOpen := true, shellReady := true, sendEncrypted := true, peerWindow := 32768
    peerMaxpkt := 32768 }

/-- Two clients with open shells: 3600 bytes are unacknowledged at the first one, which has
stopped acknowledging, and none at the second one. -/
def silentClient : Worker 2 :=
  { (workerInit [2, 0, 0, 0, 0, 1] [10, 0, 2, 15] 22 false coldRender : Worker 2) with
    net := { (netOpen [2, 0, 0, 0, 0, 1] [10, 0, 2, 15] 22 : Net 2) with
      conns := fun i => if i = ⟨0, Nat.zero_lt_two⟩ then
          { Conn.zero with
            tstate := .estab, sNxt := 3600, sEnd := 3600, sndNxt := 3600, sndMax := 3600
            rexmitCount := 1, gen := 1 }
        else { Conn.zero with tstate := .estab, gen := 1 } }
    slots := fun _ => openShell
    active := fun _ => true }

/-- The silent client is kept and ends the call, although the second client could take a chunk. -/
theorem silent_client_paces :
    RoundStart sampleEnv tinyScreen silentClient silentClient ∧
      silentClient.dead 0 = true ∧ silentClient.slotCap 1 = SSH_CHAN_CHUNK ∧
      (sshNetBroadcast sampleEnv tinyScreen silentClient).active 0 = true ∧
      silentClient.sized.1 = 0 ∧
      ¬ Worker.DropsDead (sshNetBroadcast sampleEnv tinyScreen silentClient) silentClient := by
  have hdead : silentClient.dead 0 = true := by decide +kernel
  have hfull : ¬ silentClient.full 0 := by
    unfold Worker.full
    decide +kernel
  have hkept : (sshNetBroadcast sampleEnv tinyScreen silentClient).active 0 = true :=
    Worker.dead_kept hdead hfull _ _
  refine ⟨⟨[], rfl, by decide, rfl⟩, hdead, by decide +kernel, hkept, by decide +kernel, ?_⟩
  rintro ⟨hdropped, -⟩
  rw [(hdropped 0 hdead).1] at hkept
  cases hkept

end Dossh
