import Dossh.AnsiKey
import Mathlib.Data.List.Infix

/-!
# The reboot sentinel

Three times `0x1E` and a `Y` reboot the machine.  `rb_state` counts the `0x1E` bytes of all
clients together, since their keystrokes reach `ansi_key_byte` as one stream.  So the sentinel
is the work of one client only while no other client's byte comes in between.
-/

namespace Dossh

variable {C : Type*}

/-! ## One byte -/

/-- The sentinel does not move, and keys are injected at most. -/
structure AnsiKey.Plain (k k' : AnsiKey) : Prop where
  state : k'.rbState = k.rbState
  grown : ∃ es, k'.log = es ++ k.log ∧ KeyEvent.reboot ∉ es

namespace AnsiKey.Plain

variable {k k' k'' : AnsiKey}

theorem of_eq (hs : k'.rbState = k.rbState) (hl : k'.log = k.log) : k.Plain k' :=
  ⟨hs, [], hl, List.not_mem_nil⟩

theorem refl (k : AnsiKey) : k.Plain k := of_eq rfl rfl

theorem trans (h : k.Plain k') (h' : k'.Plain k'') : k.Plain k'' := by
  obtain ⟨hs, es, hlog, hes⟩ := h
  obtain ⟨hs', es', hlog', hes'⟩ := h'
  refine ⟨hs'.trans hs, es' ++ es, ?_, ?_⟩
  · rw [hlog', hlog, List.append_assoc]
  · rw [List.mem_append, not_or]
    exact ⟨hes', hes⟩

theorem of_inject {scan ascii : UInt8} (hs : k'.rbState = k.rbState)
    (hl : k'.log = .inject scan ascii :: k.log) : k.Plain k' :=
  ⟨hs, [.inject scan ascii], hl, by simp⟩

/-- Nothing is rebooted. -/
theorem count (h : k.Plain k') : k'.log.count .reboot = k.log.count .reboot := by
  obtain ⟨-, es, hlog, hes⟩ := h
  rw [hlog, List.count_append, List.count_eq_zero_of_not_mem hes, Nat.zero_add]

theorem log (h : k.Plain k') (hr : KeyEvent.reboot ∈ k'.log) : KeyEvent.reboot ∈ k.log := by
  rw [← List.count_pos_iff] at hr ⊢
  rw [← h.count]
  exact hr

theorem mapByte (k : AnsiKey) (b : UInt8) : k.Plain (mapByte k b) := by
  unfold Dossh.mapByte
  dsimp only
  repeat' split
  all_goals first
    | exact of_inject rfl rfl
    | exact refl k

theorem finishCsi (k : AnsiKey) (final : UInt8) : k.Plain (finishCsi k final) := by
  unfold Dossh.finishCsi
  dsimp only
  generalize (if final = 0x7E then csiTilde (csiNumber (k.pend.drop 2) 0) else csiFinal final) = sc
  split
  · exact of_inject rfl rfl
  · exact refl k

/-- Behind the sentinel nothing moves it, if the second call does not. -/
theorem rest {again : AnsiKey → UInt8 → AnsiKey} {b : UInt8} (k : AnsiKey)
    (hagain : ∀ k₁ : AnsiKey, k₁.rbState = k.rbState → k₁.Plain (again k₁ b)) :
    k.Plain (ansiKeyRest again k b) := by
  unfold ansiKeyRest
  split
  · repeat' split
    · exact of_eq rfl rfl
    · exact of_inject rfl rfl
    · exact mapByte k b
  · dsimp only
    split
    · exact of_eq rfl rfl
    · generalize hk₁ : AnsiKey.mk _ _ _ _ _ = k₁
      have h₁ : k.Plain k₁ := by
        rw [← hk₁]
        exact of_inject rfl rfl
      exact h₁.trans (hagain k₁ h₁.state)
  · dsimp only
    have hage : k.Plain { k with pendAge := 0 } := of_eq rfl rfl
    split
    · split
      · split <;> exact of_eq rfl rfl
      · exact (hage.trans (finishCsi _ b)).trans (of_eq rfl rfl)
    · split
      · generalize hk₁ : (if ss3Final b ≠ 0 then _ else _ : AnsiKey) = k₁
        have h₁ : k.Plain k₁ := by
          rw [← hk₁]
          split
          · exact of_inject rfl rfl
          · exact hage
        exact h₁.trans (of_eq rfl rfl)
      · exact of_eq rfl rfl

/-- A byte that is no `0x1E` passes the head of a call that finds the sentinel at rest. -/
theorem head {again : AnsiKey → UInt8 → AnsiKey} {b : UInt8} (k : AnsiKey) (hb : b ≠ 0x1E)
    (hrest : k.rbState = 0)
    (hagain : ∀ k₁ : AnsiKey, k₁.rbState = 0 → k₁.Plain (again k₁ b)) :
    k.Plain (ansiKeyHead again k b) := by
  have hzero : k.Plain { k with rbState := 0 } := of_eq hrest.symm rfl
  unfold ansiKeyHead
  rw [if_neg hb, if_neg (by omega)]
  dsimp only
  split
  · have hswallow : k.Plain { k with rbState := 0, swallow := false } := of_eq hrest.symm rfl
    split
    · exact hswallow
    · exact hswallow.trans (hagain _ rfl)
  · exact hzero.trans (hagain _ rfl)

end AnsiKey.Plain

/-- What a byte does to the sentinel. -/
inductive SentinelStep (k : AnsiKey) (b : UInt8) (k' : AnsiKey) : Prop where
  | counted (hb : b = 0x1E) (hs : k'.rbState = min 3 (k.rbState + 1)) (hl : k'.log = k.log)
  | reboot (hb : b = 0x59 ∨ b = 0x79) (hfull : 3 ≤ k.rbState) (hs : k'.rbState = 0)
  | cleared (hs : k'.rbState = 0) (hl : KeyEvent.reboot ∈ k'.log → KeyEvent.reboot ∈ k.log)

/-- A byte that neither counts nor confirms finds the sentinel at rest. -/
theorem ansiKeyByte_cleared {k : AnsiKey} {b : UInt8} (hb : b ≠ 0x1E)
    (hy : ¬ (k.rbState ≥ 3 ∧ (b = 0x59 ∨ b = 0x79))) :
    ansiKeyByte k b = ansiKeyByte { k with rbState := 0 } b := by
  simp only [ansiKeyByte, ansiKeyHead, if_neg hb, if_neg hy]
  rfl

theorem ansiKeyByte_plain {k : AnsiKey} {b : UInt8} (hb : b ≠ 0x1E)
    (hy : ¬ (k.rbState ≥ 3 ∧ (b = 0x59 ∨ b = 0x79))) :
    ({ k with rbState := 0 } : AnsiKey).Plain (ansiKeyByte k b) := by
  rw [ansiKeyByte_cleared hb hy]
  refine AnsiKey.Plain.head _ hb rfl fun k₁ hk₁ => ?_
  refine AnsiKey.Plain.rest k₁ fun k₂ hk₂ => ?_
  refine AnsiKey.Plain.head k₂ hb (hk₂.trans hk₁) fun k₃ hk₃ => ?_
  exact AnsiKey.Plain.rest k₃ fun k₄ _ => .refl k₄

theorem ansiKeyByte_sentinel (k : AnsiKey) (b : UInt8) (hk : k.rbState ≤ 3) :
    SentinelStep k b (ansiKeyByte k b) := by
  by_cases hb : b = 0x1E
  · refine .counted hb ?_ ?_
    · rw [ansiKeyByte, ansiKeyHead, if_pos hb]
      split
      · dsimp only
        omega
      · omega
    · rw [ansiKeyByte, ansiKeyHead, if_pos hb]
      split <;> rfl
  by_cases hy : k.rbState ≥ 3 ∧ (b = 0x59 ∨ b = 0x79)
  · refine .reboot hy.2 hy.1 ?_
    rw [ansiKeyByte, ansiKeyHead, if_neg hb, if_pos hy]
  · have hzero := ansiKeyByte_plain hb hy
    exact .cleared hzero.state hzero.log

/-! ## Runs -/

/-- What reaches the key mapper: a byte of a client, or a timer tick. -/
inductive KeyStep (C : Type*) where
  | byte (client : C) (b : UInt8)
  | tick

/-- The key mapper after a step. -/
def KeyStep.run : KeyStep C → AnsiKey → AnsiKey
  | .byte _ b, k => ansiKeyByte k b
  | .tick, k => ansiKeyTick k

/-- The key mapper after a sequence of steps. -/
def keyRun (steps : List (KeyStep C)) (k : AnsiKey) : AnsiKey :=
  steps.foldl (fun k step => step.run k) k

/-- The bytes of one client. -/
def bytesOf [DecidableEq C] (client : C) (steps : List (KeyStep C)) : List UInt8 :=
  steps.filterMap fun
    | .byte c b => if c = client then some b else none
    | .tick => none

/-- A client sent the sentinel: `0x1E` three times in a row, and a `Y` right behind. -/
def SentSentinel [DecidableEq C] (client : C) (steps : List (KeyStep C)) : Prop :=
  ∃ y, (y = 0x59 ∨ y = 0x79) ∧ [0x1E, 0x1E, 0x1E, y] <:+: bytesOf client steps

/-- While the sentinel is counting, only the client of the last byte goes on. -/
def OneAtATime : Option C → List (KeyStep C) → AnsiKey → Prop
  | _, [], _ => True
  | last, .tick :: steps, k => OneAtATime last steps (ansiKeyTick k)
  | last, .byte c b :: steps, k =>
      (k.rbState ≠ 0 → last = some c) ∧ OneAtATime (some c) steps (ansiKeyByte k b)

/-- What the count says about the bytes so far. -/
structure SentinelInv [DecidableEq C] (past : List (KeyStep C)) (last : Option C) (k : AnsiKey) :
    Prop where
  bound : k.rbState ≤ 3
  counted : ∀ c, last = some c → List.replicate k.rbState 0x1E <:+ bytesOf c past
  idle : last = none → k.rbState = 0
  rebooted : KeyEvent.reboot ∈ k.log → ∃ c, SentSentinel c past

variable [DecidableEq C] {past steps : List (KeyStep C)} {last : Option C} {k : AnsiKey}

theorem bytesOf_byte (past : List (KeyStep C)) (c : C) (b : UInt8) :
    bytesOf c (past ++ [.byte c b]) = bytesOf c past ++ [b] := by
  simp [bytesOf]

theorem bytesOf_mono (past : List (KeyStep C)) (step : KeyStep C) (c : C) :
    bytesOf c past <+: bytesOf c (past ++ [step]) := by
  rw [bytesOf, bytesOf, List.filterMap_append]
  exact List.prefix_append _ _

theorem SentSentinel.snoc {c : C} (h : SentSentinel c past) (step : KeyStep C) :
    SentSentinel c (past ++ [step]) := by
  obtain ⟨y, hy, hinf⟩ := h
  exact ⟨y, hy, hinf.trans (bytesOf_mono past step c).isInfix⟩

theorem ansiKeyTick_plain (k : AnsiKey) : k.Plain (ansiKeyTick k) := by
  unfold ansiKeyTick
  dsimp only
  repeat' split
  · exact .of_inject rfl rfl
  · exact .of_eq rfl rfl
  · exact .of_eq rfl rfl
  · exact .refl k

theorem SentinelInv.tick (h : SentinelInv past last k) :
    SentinelInv (past ++ [.tick]) last (ansiKeyTick k) := by
  have hplain := ansiKeyTick_plain k
  refine ⟨by rw [hplain.state]; exact h.bound, fun c hc => ?_, fun hl => ?_, fun hr => ?_⟩
  · rw [hplain.state]
    have hbytes : bytesOf c (past ++ [.tick]) = bytesOf c past := by simp [bytesOf]
    rw [hbytes]
    exact h.counted c hc
  · rw [hplain.state]
    exact h.idle hl
  · obtain ⟨c, hsent⟩ := h.rebooted (hplain.log hr)
    exact ⟨c, hsent.snoc .tick⟩

/-- The bytes a client has counted so far, when its next byte comes. -/
theorem SentinelInv.own (h : SentinelInv past last k) {c : C}
    (hc : k.rbState ≠ 0 → last = some c) :
    List.replicate k.rbState 0x1E <:+ bytesOf c past := by
  by_cases hz : k.rbState = 0
  · rw [hz]
    exact List.nil_suffix
  · exact h.counted c (hc hz)

theorem SentinelInv.byte (h : SentinelInv past last k) {c : C} (b : UInt8)
    (hc : k.rbState ≠ 0 → last = some c) :
    SentinelInv (past ++ [.byte c b]) (some c) (ansiKeyByte k b) := by
  have hown := h.own hc
  have hkeep : (∃ c, SentSentinel c past) → ∃ c', SentSentinel c' (past ++ [.byte c b]) :=
    fun ⟨c', hsent⟩ => ⟨c', hsent.snoc _⟩
  cases ansiKeyByte_sentinel k b h.bound with
  | counted hb hs hl =>
      refine ⟨by omega, ?_, nofun, fun hr => hkeep (h.rebooted (hl ▸ hr))⟩
      rintro _ ⟨rfl⟩
      obtain ⟨front, hfront⟩ := hown
      rw [bytesOf_byte, hs, hb, ← hfront, List.append_assoc, ← List.replicate_succ']
      have hshort : List.replicate (min 3 (k.rbState + 1)) (0x1E : UInt8) <:+
          List.replicate (k.rbState + 1) 0x1E := by
        refine ⟨List.replicate (k.rbState + 1 - min 3 (k.rbState + 1)) 0x1E, ?_⟩
        rw [List.replicate_append_replicate]
        congr 1
        omega
      exact hshort.trans (List.suffix_append _ _)
  | reboot hb hfull hs =>
      refine ⟨by omega, ?_, nofun, fun _ => ⟨c, b, hb, ?_⟩⟩
      · rintro _ ⟨rfl⟩
        rw [hs]
        exact List.nil_suffix
      · rw [bytesOf_byte]
        have hthree : k.rbState = 3 := by
          have := h.bound
          omega
        rw [hthree] at hown
        obtain ⟨front, hfront⟩ := hown
        exact ⟨front, [], by rw [← hfront]; simp [List.replicate]⟩
  | cleared hs hl =>
      refine ⟨by omega, ?_, nofun, fun hr => hkeep (h.rebooted (hl hr))⟩
      rintro _ ⟨rfl⟩
      rw [hs]
      exact List.nil_suffix

theorem SentinelInv.run : ∀ (steps : List (KeyStep C)) {past : List (KeyStep C)}
    {last : Option C} {k : AnsiKey}, SentinelInv past last k → OneAtATime last steps k →
      ∃ last, SentinelInv (past ++ steps) last (keyRun steps k)
  | [], past, last, k, h, _ => ⟨last, by rwa [List.append_nil]⟩
  | .tick :: steps, past, last, k, h, hone => by
      obtain ⟨last', h'⟩ := SentinelInv.run steps h.tick hone
      rw [List.append_assoc] at h'
      exact ⟨last', h'⟩
  | .byte c b :: steps, past, last, k, h, hone => by
      obtain ⟨last', h'⟩ := SentinelInv.run steps (h.byte b hone.1) hone.2
      rw [List.append_assoc] at h'
      exact ⟨last', h'⟩

/-- In every run in which no client's byte comes between those of a sentinel, a reboot is the
work of one client. -/
theorem reboot_by_one_client (hone : OneAtATime none steps AnsiKey.init)
    (hreboot : KeyEvent.reboot ∈ (keyRun steps AnsiKey.init).log) :
    ∃ c, SentSentinel c steps := by
  have hinit : SentinelInv ([] : List (KeyStep C)) none AnsiKey.init :=
    ⟨by decide, nofun, fun _ => rfl, nofun⟩
  obtain ⟨last, h⟩ := hinit.run steps hone
  exact h.rebooted hreboot

instance decidableOneAtATime : ∀ (last : Option C) (steps : List (KeyStep C)) (k : AnsiKey),
    Decidable (OneAtATime last steps k)
  | _, [], _ => isTrue trivial
  | last, .tick :: steps, k => decidableOneAtATime last steps (ansiKeyTick k)
  | last, .byte c b :: steps, k =>
      have : Decidable (OneAtATime (some c) steps (ansiKeyByte k b)) :=
        decidableOneAtATime (some c) steps (ansiKeyByte k b)
      inferInstanceAs (Decidable ((k.rbState ≠ 0 → last = some c) ∧ _))

/-- Two clients type, and then the second reboots the machine. -/
def rebootSteps : List (KeyStep (Fin 2)) :=
  [.byte ⟨0, Nat.zero_lt_two⟩ 0x61, .byte ⟨1, Nat.one_lt_two⟩ 0x1E, .byte ⟨1, Nat.one_lt_two⟩ 0x1E,
    .tick, .byte ⟨1, Nat.one_lt_two⟩ 0x1E, .byte ⟨1, Nat.one_lt_two⟩ 0x59]

theorem reboot_by_one_client_second :
    KeyEvent.reboot ∈ (keyRun rebootSteps AnsiKey.init).log ∧ ∃ c, SentSentinel c rebootSteps := by
  have hreboot : KeyEvent.reboot ∈ (keyRun rebootSteps AnsiKey.init).log := by decide +kernel
  exact ⟨hreboot, reboot_by_one_client (by decide +kernel) hreboot⟩

/-- One client sends the `0x1E` bytes and another a `Y`. -/
def splitSteps : List (KeyStep (Fin 2)) :=
  [.byte ⟨0, Nat.zero_lt_two⟩ 0x1E, .byte ⟨0, Nat.zero_lt_two⟩ 0x1E, .byte ⟨0, Nat.zero_lt_two⟩ 0x1E,
    .byte ⟨1, Nat.one_lt_two⟩ 0x59]

theorem reboot_by_two_clients :
    KeyEvent.reboot ∈ (keyRun splitSteps AnsiKey.init).log ∧
      ∀ c, ¬ SentSentinel c splitSteps := by
  refine ⟨by decide +kernel, fun c => ?_⟩
  rintro ⟨y, -, hinf⟩
  have hlen : ∀ c, (bytesOf c splitSteps).length < 4 := by decide
  exact absurd hinf.length_le (Nat.not_le.mpr (hlen c))

/-! ## The stream as a whole -/

omit [DecidableEq C]

/-- The byte of a step. -/
def KeyStep.byte? : KeyStep C → Option UInt8
  | .byte _ b => some b
  | .tick => none

/-- The stream of bytes, without the ticks. -/
def allBytes (steps : List (KeyStep C)) : List UInt8 := steps.filterMap KeyStep.byte?

/-- The length of the run of `0x1E` bytes that ends a stream. -/
def runBefore (past : List UInt8) : Nat := (past.reverse.takeWhile (· == 0x1E)).length

/-- The length of the run of `0x1E` bytes that begins a stream. -/
def runAfter (bytes : List UInt8) : Nat := (bytes.takeWhile (· == 0x1E)).length

/-- The byte is a `Y` right behind a run of three or more. -/
def confirms (past : List UInt8) (b : UInt8) : Bool :=
  3 ≤ runBefore past && (b == 0x59 || b == 0x79)

/-- How many runs of three or more are confirmed by a `Y`, behind the bytes `past`. -/
def confirmations : List UInt8 → List UInt8 → Nat
  | _, [] => 0
  | past, b :: bytes =>
      (if confirms past b then 1 else 0) + confirmations (past ++ [b]) bytes

/-- The run that goes on for `m` bytes already is confirmed. -/
def runConfirmed (m : Nat) (bytes : List UInt8) : Bool :=
  3 ≤ m + runAfter bytes &&
    match bytes.dropWhile (· == 0x1E) with
    | [] => false
    | b :: _ => b == 0x59 || b == 0x79

/-- The stream without the `0x1E` bytes of runs that no `Y` confirms.  The first argument is the
length of the run so far. -/
def dropIdle : Nat → List (KeyStep C) → List (KeyStep C)
  | _, [] => []
  | m, .tick :: steps => .tick :: dropIdle m steps
  | m, .byte c b :: steps =>
      if b = 0x1E then
        if runConfirmed (m + 1) (allBytes steps) then .byte c b :: dropIdle (m + 1) steps
        else dropIdle (m + 1) steps
      else .byte c b :: dropIdle 0 steps

theorem runBefore_counted (past : List UInt8) : runBefore (past ++ [0x1E]) = runBefore past + 1 := by
  simp [runBefore]

theorem runBefore_cleared (past : List UInt8) {b : UInt8} (hb : b ≠ 0x1E) :
    runBefore (past ++ [b]) = 0 := by
  simp [runBefore, hb]

/-- The count of the sentinel is the run of the stream. -/
theorem ansiKeyByte_run {k : AnsiKey} {past : List UInt8} (h : k.rbState = min 3 (runBefore past))
    (b : UInt8) :
    (ansiKeyByte k b).rbState = min 3 (runBefore (past ++ [b])) ∧
      if confirms past b then (ansiKeyByte k b).log = .reboot :: k.log
      else (ansiKeyByte k b).log.count .reboot = k.log.count .reboot := by
  have hconf : confirms past b = true ↔ k.rbState ≥ 3 ∧ (b = 0x59 ∨ b = 0x79) := by
    have hmin : min 3 (runBefore past) ≥ 3 ↔ 3 ≤ runBefore past := by omega
    rw [h, hmin, confirms]
    simp
  by_cases hb : b = 0x1E
  · subst hb
    have hno : ¬ confirms past 0x1E = true := by
      rw [hconf]
      rintro ⟨-, hy⟩
      exact absurd hy (by decide)
    rw [runBefore_counted, if_neg hno, ansiKeyByte, ansiKeyHead, if_pos rfl]
    split
    · refine ⟨?_, rfl⟩
      dsimp only
      omega
    · refine ⟨?_, rfl⟩
      omega
  rw [runBefore_cleared past hb]
  by_cases hy : k.rbState ≥ 3 ∧ (b = 0x59 ∨ b = 0x79)
  · rw [if_pos (hconf.mpr hy), ansiKeyByte, ansiKeyHead, if_neg hb, if_pos hy]
    exact ⟨rfl, rfl⟩
  · have hplain := ansiKeyByte_plain hb hy
    rw [if_neg fun hc => hy (hconf.mp hc)]
    exact ⟨hplain.state, hplain.count⟩

theorem allBytes_byte (c : C) (b : UInt8) (steps : List (KeyStep C)) :
    allBytes (.byte c b :: steps) = b :: allBytes steps := rfl

/-- The sentinel over a stream. -/
theorem keyRun_sentinel : ∀ (steps : List (KeyStep C)) {past : List UInt8} {k : AnsiKey},
    k.rbState = min 3 (runBefore past) →
      (keyRun steps k).rbState = min 3 (runBefore (past ++ allBytes steps)) ∧
        (keyRun steps k).log.count .reboot =
          k.log.count .reboot + confirmations past (allBytes steps)
  | [], past, k, h => by
      rw [allBytes, List.filterMap_nil, List.append_nil]
      exact ⟨h, rfl⟩
  | .tick :: steps, past, k, h => by
      have hplain := ansiKeyTick_plain k
      obtain ⟨hs, hc⟩ := keyRun_sentinel steps (hplain.state.trans h)
      rw [hplain.count] at hc
      exact ⟨hs, hc⟩
  | .byte c b :: steps, past, k, h => by
      obtain ⟨hstate, hlog⟩ := ansiKeyByte_run h b
      obtain ⟨hs, hc⟩ := keyRun_sentinel steps hstate
      rw [List.append_assoc] at hs
      refine ⟨hs, hc.trans ?_⟩
      rw [allBytes_byte, confirmations]
      split at hlog
      next hconf =>
        rw [if_pos hconf, hlog, List.count_cons_self]
        omega
      next hconf => rw [if_neg hconf, hlog, Nat.zero_add]

/-- The rest of the state does not depend on the sentinel. -/
theorem ansiKeyTick_rbState (k : AnsiKey) (r : Nat) :
    ansiKeyTick { k with rbState := r } = { ansiKeyTick k with rbState := r } := by
  unfold ansiKeyTick
  dsimp only
  split
  · split
    · split <;> rfl
    · rfl
  · rfl

theorem runConfirmed_counted (m : Nat) (bytes : List UInt8) :
    runConfirmed m (0x1E :: bytes) = runConfirmed (m + 1) bytes := by
  have hrun : m + runAfter (0x1E :: bytes) = m + 1 + runAfter bytes := by
    simp [runAfter]
    omega
  rw [runConfirmed, runConfirmed, hrun]
  rfl

theorem runConfirmed_ended (m : Nat) (bytes : List UInt8) {b : UInt8} (hb : b ≠ 0x1E) :
    runConfirmed m (b :: bytes) = (decide (3 ≤ m) && (b == 0x59 || b == 0x79)) := by
  simp [runConfirmed, runAfter, hb]

theorem ansiKeyByte_counted {k : AnsiKey} {m : Nat} (h : k.rbState = min 3 m) :
    ansiKeyByte k 0x1E = { k with rbState := min 3 (m + 1) } := by
  rw [ansiKeyByte, ansiKeyHead, if_pos rfl]
  split
  next hlt =>
    have hnext : k.rbState + 1 = min 3 (m + 1) := by omega
    rw [hnext]
  next hge =>
    have hsame : min 3 (m + 1) = k.rbState := by omega
    rw [hsame]

/-- A byte that is no `0x1E` and its run, if the run is confirmed. -/
theorem ansiKeyByte_ended {k : AnsiKey} {m : Nat} (h : k.rbState = min 3 m) {b : UInt8}
    (hb : b ≠ 0x1E) (bytes : List UInt8) :
    ansiKeyByte { k with rbState := if runConfirmed m (b :: bytes) then min 3 m else 0 } b =
        ansiKeyByte k b ∧ (ansiKeyByte k b).rbState = 0 := by
  rw [runConfirmed_ended m bytes hb]
  by_cases hy : k.rbState ≥ 3 ∧ (b = 0x59 ∨ b = 0x79)
  · have hconf : (decide (3 ≤ m) && (b == 0x59 || b == 0x79)) = true := by
      have hm : 3 ≤ m := by omega
      simp [hm, hy.2]
    rw [if_pos hconf, ← h]
    refine ⟨rfl, ?_⟩
    rw [ansiKeyByte, ansiKeyHead, if_neg hb, if_pos hy]
  · have hconf : ¬ (decide (3 ≤ m) && (b == 0x59 || b == 0x79)) = true := by
      intro hc
      simp only [Bool.and_eq_true, decide_eq_true_eq, Bool.or_eq_true, beq_iff_eq] at hc
      exact hy ⟨by omega, hc.2⟩
    rw [if_neg hconf]
    exact ⟨(ansiKeyByte_cleared hb hy).symm, (ansiKeyByte_plain hb hy).state⟩

/-- Without the idle `0x1E` bytes everything but the count is the same. -/
theorem dropIdle_run : ∀ (steps : List (KeyStep C)) (m : Nat) (k : AnsiKey), k.rbState = min 3 m →
    ∃ r, keyRun (dropIdle m steps)
        { k with rbState := if runConfirmed m (allBytes steps) then min 3 m else 0 } =
      { keyRun steps k with rbState := r }
  | [], _, _, _ => ⟨_, rfl⟩
  | .tick :: steps, m, k, h => by
      have hstate : (ansiKeyTick k).rbState = min 3 m := (ansiKeyTick_plain k).state.trans h
      obtain ⟨r, hr⟩ := dropIdle_run steps m (ansiKeyTick k) hstate
      refine ⟨r, ?_⟩
      rw [← ansiKeyTick_rbState] at hr
      exact hr
  | .byte c b :: steps, m, k, h => by
      by_cases hb : b = 0x1E
      · subst hb
        obtain ⟨r, hr⟩ := dropIdle_run steps (m + 1) { k with rbState := min 3 (m + 1) } rfl
        refine ⟨r, ?_⟩
        have hrun : keyRun (.byte c 0x1E :: steps) k =
            keyRun steps { k with rbState := min 3 (m + 1) } :=
          congrArg (keyRun steps) (ansiKeyByte_counted h)
        rw [hrun, ← hr, allBytes_byte, runConfirmed_counted, dropIdle, if_pos rfl]
        cases hconf : runConfirmed (m + 1) (allBytes steps) with
        | true =>
            exact congrArg (keyRun (dropIdle (m + 1) steps)) (ansiKeyByte_counted rfl)
        | false => rfl
      · obtain ⟨hsame, hzero⟩ := ansiKeyByte_ended h hb (allBytes steps)
        obtain ⟨r, hr⟩ := dropIdle_run steps 0 (ansiKeyByte k b) hzero
        refine ⟨r, ?_⟩
        have hstart : ({ ansiKeyByte k b with
            rbState := if runConfirmed 0 (allBytes steps) then min 3 0 else 0 } : AnsiKey) =
              ansiKeyByte k b := by
          rw [Nat.min_zero, ite_self, ← hzero]
        rw [hstart] at hr
        rw [dropIdle, if_neg hb, allBytes_byte]
        exact (congrArg (keyRun (dropIdle 0 steps)) hsame).trans hr

/-- What the sentinel does over a stream: a reboot for each confirmed run and no other, a `Y` that
confirms is not typed, and the other `0x1E` bytes make no difference. -/
structure SentinelExact (steps : List (KeyStep C)) : Prop where
  count : (keyRun steps AnsiKey.init).log.count .reboot = confirmations [] (allBytes steps)
  consumed : ∀ past c b rest, steps = past ++ .byte c b :: rest →
    confirms (allBytes past) b = true →
    (keyRun (past ++ [.byte c b]) AnsiKey.init).log = .reboot :: (keyRun past AnsiKey.init).log
  idle : (keyRun (dropIdle 0 steps) AnsiKey.init).log = (keyRun steps AnsiKey.init).log

theorem reboot_sentinel_exact (steps : List (KeyStep C)) : SentinelExact steps := by
  have hinit : AnsiKey.init.rbState = min 3 (runBefore []) := rfl
  refine ⟨?_, fun past c b rest _ hconf => ?_, ?_⟩
  · rw [(keyRun_sentinel steps hinit).2]
    exact Nat.zero_add _
  · have hpast := (keyRun_sentinel past hinit).1
    have hlog := (ansiKeyByte_run hpast b).2
    rw [List.nil_append, if_pos hconf] at hlog
    rw [keyRun, List.foldl_append]
    exact hlog
  · obtain ⟨r, hr⟩ := dropIdle_run steps 0 AnsiKey.init rfl
    rw [Nat.min_zero, ite_self] at hr
    have hlog := congrArg AnsiKey.log hr
    exact hlog

end Dossh
