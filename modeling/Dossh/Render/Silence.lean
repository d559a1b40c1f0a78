import Mathlib.Data.Prod.Lex
import Mathlib.Order.OrderIsoNat
import Dossh.Render.Cursor

/-!
# Idle silence

On the network the renderer stops sending once the screen is constant.  The frame in progress may
hold cells that were read before; the first frame that starts afterwards paints the screen as it is,
and then `frame_decide` finds nothing but repaints of the heal window.  Such a repaint starts only
when the cadence has passed since the last full frame, so there are finitely many until the counter
starts again.

Whether the heal window is over is read off `heal_kf`, which may be a tick of the day before.
-/

namespace Dossh

/-- The screen at a tick. -/
def Screen.atTick (s : Screen) (t : Nat) : Screen := { s with ticks := biosTicks t }

/-! ## Painted cells -/

/-- A cell agrees with the shadow once it was walked. -/
theorem fillCell_agrees {v : Nat → UInt8} {r : Render} (hbig : r.isToobig = false)
    (h : ∀ c < r.walkCell, cellChanged v r.shadow c = false) :
    ∀ c < r.walkCell + 1, cellChanged v (fillCell v r).shadow c = false := by
  intro c hc
  by_cases hsent : cellSent v r = true
  · have hshadow : (fillCell v r).shadow = Function.update (Function.update r.shadow
        (r.walkCell * 2) (v (r.walkCell * 2))) (r.walkCell * 2 + 1) (v (r.walkCell * 2 + 1)) := by
      rw [cellSent] at hsent
      rw [fillCell, if_pos hsent]
      show (if r.isToobig = true then r.shadow else _) = _
      rw [hbig, if_neg Bool.false_ne_true]
    rw [hshadow]
    by_cases hcw : c = r.walkCell
    · subst hcw
      rw [cellChanged, Function.update_self, Function.update_of_ne (by omega), Function.update_self]
      simp
    · have hold := h c (by omega)
      rw [cellChanged] at hold ⊢
      rw [Function.update_of_ne (by omega), Function.update_of_ne (by omega),
        Function.update_of_ne (by omega), Function.update_of_ne (by omega)]
      exact hold
  · have hsame : (fillCell v r).shadow = r.shadow := by
      rw [cellSent] at hsent
      rw [fillCell, if_neg hsent]
    rw [hsame]
    by_cases hcw : c = r.walkCell
    · subst hcw
      rw [cellSent, Bool.or_eq_true, not_or] at hsent
      exact Bool.eq_false_iff.mpr hsent.2
    · exact h c (by omega)

theorem fillCell_force (v : Nat → UInt8) (r : Render) : (fillCell v r).forceKf = r.forceKf := by
  unfold fillCell
  dsimp only
  split <;> rfl

/-- The loop moves on if there is a cell left and room for it. -/
theorem fillLoop_walk (v : Nat → UInt8) : ∀ (fuel : Nat) (r : Render),
    r.walkCell ≤ (fillLoop v fuel r).walkCell ∧
      (0 < fuel → r.walkCell < r.totalCells → r.obuf.length + 48 ≤ OBUF →
        r.walkCell < (fillLoop v fuel r).walkCell)
  | 0, _ => ⟨Nat.le_refl _, fun h => absurd h (Nat.lt_irrefl 0)⟩
  | fuel + 1, r => by
      have hnext := (fillCell_same v r).2
      have ih := (fillLoop_walk v fuel (fillCell v r)).1
      rw [hnext] at ih
      rw [fillLoop]
      split
      · split
        · exact ⟨Nat.le_refl _, fun _ _ hroom => by omega⟩
        · exact ⟨by omega, fun _ _ _ => by omega⟩
      · exact ⟨Nat.le_refl _, fun _ hlt => by omega⟩

theorem eS_length_le : ∀ (s o : List UInt8), (eS o s).length ≤ o.length + s.length
  | [], _ => Nat.le_refl _
  | c :: s, o => by
      have ih := eS_length_le s (eB o c)
      have hone : (eB o c).length ≤ o.length + 1 := by
        unfold eB
        split
        · rw [List.length_append, List.length_singleton]
        · exact Nat.le_succ _
      rw [List.length_cons]
      show (eS (eB o c) s).length ≤ _
      omega

/-- The head of a frame leaves room for a cell. -/
theorem frameStart_room (cols rows : Nat) (clear repaint : Bool) {r : Render} (h : r.obuf = []) :
    (frameStart cols rows clear repaint r).obuf.length + 48 ≤ OBUF := by
  have hhead := eS_length_le
    [0x1B, 0x5B, 0x3F, 0x37, 0x6C, 0x1B, 0x5B, 0x3F, 0x32, 0x35, 0x6C] r.obuf
  have hclear := eS_length_le [0x1B, 0x5B, 0x32, 0x4A, 0x1B, 0x5B, 0x48]
    (eS r.obuf [0x1B, 0x5B, 0x3F, 0x37, 0x6C, 0x1B, 0x5B, 0x3F, 0x32, 0x35, 0x6C])
  rw [h] at hhead hclear
  simp only [List.length_cons, List.length_nil] at hhead hclear
  unfold frameStart
  dsimp only
  rw [h]
  unfold OBUF
  split <;> omega

namespace Render

variable {s : Screen} {r : Render}

/-! ## Calm states -/

/-- The frame in progress has painted the cells of `s` as they are. -/
structure Fresh (s : Screen) (r : Render) : Prop where
  small : r.isToobig = false
  total : r.totalCells = s.geomCols * s.geomRows
  shCols : s.geomCols = r.shCols
  shRows : s.geomRows = r.shRows
  clean : r.isRepaint = true ∨ r.forceKf = false
  agrees : ∀ c < r.walkCell, cellChanged s.base r.shadow c = false

/-- There is nothing to send for `s` but the rest of a frame that paints it, and repaints. -/
structure Calm (s : Screen) (r : Render) : Prop where
  frame : r.frameActive = true → r.Fresh s
  idle : r.frameActive = false → r.mustClear s = false ∧ r.settled s

theorem Fresh.atTick (h : r.Fresh s) (t : Nat) : r.Fresh (s.atTick t) :=
  ⟨h.small, h.total, h.shCols, h.shRows, h.clean, h.agrees⟩

theorem Calm.atTick (h : r.Calm s) (t : Nat) : r.Calm (s.atTick t) :=
  ⟨fun ha => (h.frame ha).atTick t, h.idle⟩

/-- The ticks do not matter. -/
theorem Calm.ofTick {t : Nat} (h : r.Calm (s.atTick t)) : r.Calm s :=
  ⟨fun ha => let f := h.frame ha
    ⟨f.small, f.total, f.shCols, f.shRows, f.clean, f.agrees⟩, h.idle⟩

theorem Fresh.out (h : r.Fresh s) (o : List UInt8) (off : Nat) (b : Option UInt8) :
    ({ r with obuf := o, oOff := off, pushed := b } : Render).Fresh s :=
  ⟨h.small, h.total, h.shCols, h.shRows, h.clean, h.agrees⟩

/-- The output buffer does not matter. -/
theorem Calm.out (h : r.Calm s) (o : List UInt8) (off : Nat) (b : Option UInt8) :
    ({ r with obuf := o, oOff := off, pushed := b } : Render).Calm s :=
  ⟨fun ha => (h.frame ha).out o off b, h.idle⟩

theorem Fresh.fillCell (h : r.Fresh s) : (fillCell s.base r).Fresh s := by
  obtain ⟨hsame, hwalk⟩ := fillCell_same s.base r
  have hrepaint : (Dossh.fillCell s.base r).isRepaint = r.isRepaint :=
    congrArg Prod.fst (fillCell_kept s.base r).1
  refine ⟨hsame.toobig.trans h.small, hsame.total.trans h.total, h.shCols.trans hsame.shCols.symm,
    h.shRows.trans hsame.shRows.symm, ?_, ?_⟩
  · rw [hrepaint, fillCell_force]
    exact h.clean
  · rw [hwalk]
    exact fillCell_agrees h.small h.agrees

theorem Fresh.fillLoop : ∀ (fuel : Nat) {r : Render}, r.Fresh s → (fillLoop s.base fuel r).Fresh s
  | 0, _, h => h
  | fuel + 1, r, h => by
      rw [Dossh.fillLoop]
      split
      · split
        · exact h
        · exact Fresh.fillLoop fuel h.fillCell
      · exact h

/-- Every cell agrees, so none has changed. -/
theorem changed_eq_zero (h : ∀ c < s.geomCols * s.geomRows, cellChanged s.base r.shadow c = false) :
    r.changed s = 0 := by
  rw [changed, List.countP_eq_zero]
  intro c hc
  rw [h c (List.mem_range.mp hc)]
  exact Bool.false_ne_true

/-- A completed frame leaves nothing to send. -/
theorem Fresh.frameEnd (h : r.Fresh s) (hend : r.totalCells ≤ r.walkCell) :
    (frameEnd s r).mustClear s = false ∧ (frameEnd s r).settled s := by
  have hforce : (Dossh.frameEnd s r).forceKf = false := by
    show (if r.isRepaint = true then false else r.forceKf) = false
    split
    · rfl
    next hno => exact h.clean.resolve_left hno
  have hvalid : (Dossh.frameEnd s r).shadowValid = true := by
    show (if r.isToobig = true then r.shadowValid else true) = true
    rw [h.small, if_neg Bool.false_ne_true]
  refine ⟨?_, changed_eq_zero fun c hc => h.agrees c ?_, rfl, rfl⟩
  · obtain ⟨-, hcols, hrows, -⟩ := frameEnd_kept s r
    simp [mustClear, hforce, hvalid, hcols, hrows, ← h.shCols, ← h.shRows]
  · rw [← h.total] at hc
    omega

theorem Fresh.frameFill (h : r.Fresh s) (ha : r.frameActive = true) : (frameFill s r).Calm s := by
  have hloop := h.fillLoop (r.totalCells - r.walkCell)
  have hactive : (Dossh.fillLoop s.base (r.totalCells - r.walkCell) r).frameActive = true :=
    (fillLoop_kept s.base _ r).2.trans ha
  unfold Dossh.frameFill
  dsimp only
  generalize Dossh.fillLoop s.base (r.totalCells - r.walkCell) r = r' at *
  split
  next hdone => exact ⟨fun hact => (by cases hact), fun _ => hloop.frameEnd hdone⟩
  next => exact ⟨fun _ => hloop, fun hidle => absurd (hactive.symm.trans hidle) (by decide)⟩

/-- A frame that starts paints the screen as it is. -/
theorem fresh_frameDecide (hsmall : s.geomCols * s.geomRows * 2 ≤ SHADOW_BYTES)
    (hidle : r.frameActive = false) (hstart : (frameDecide false s r).frameActive = true) :
    (frameDecide false s r).Fresh s := by
  rcases frameDecide_cases false s r with ⟨b, heq, -⟩ | ⟨clear, repaint, b, heal, heq, hbig, -, hdiff⟩
  · rw [heq] at hstart
    exact absurd (hidle.symm.trans hstart) Bool.false_ne_true
  · rw [heq]
    have hb : b = false := by
      cases b with
      | false => rfl
      | true =>
          have := (hbig rfl).1
          omega
    subst hb
    cases repaint with
    | true => exact ⟨rfl, rfl, rfl, rfl, .inl rfl, fun c hc => absurd hc (Nat.not_lt_zero c)⟩
    | false =>
        obtain ⟨-, hforce, -, hcols, hrows⟩ := hdiff rfl
        exact ⟨rfl, rfl, hcols, hrows, .inr hforce, fun c hc => absurd hc (Nat.not_lt_zero c)⟩

/-! ## Calls on a constant screen -/

/-- `render_next_byte(0)` starts a frame. -/
def begins (s : Screen) (r : Render) : Bool :=
  r.refills && !r.frameActive && (r.refilled false s).frameActive

/-- `render_next_byte(0)` starts a repaint of the heal window: nothing forces it, and the geometry
is that of the shadow. -/
def heals (s : Screen) (r : Render) : Bool :=
  r.refills && !r.frameActive && !r.mustClear s && r.cadence s && r.healing s

/-- A refill that sends nothing leaves the renderer as it is. -/
theorem refilled_quiet {serial : Bool} (hidle : r.frameActive = false)
    (hquiet : (r.refilled serial s).frameActive = false) :
    ∃ b, r.refilled serial s = { r with obuf := [], oOff := 0, isToobig := b } := by
  rw [refilled_idle serial s hidle] at hquiet ⊢
  rcases frameDecide_cases serial s { r with obuf := [], oOff := 0 } with
    ⟨b, heq, -⟩ | ⟨clear, repaint, b, heal, heq, -⟩
  · exact ⟨b, heq⟩
  · rw [heq] at hquiet
    cases hquiet

/-- The rest of a fresh frame, or a frame that starts, leaves a calm state. -/
theorem calm_refill (hsmall : s.geomCols * s.geomRows * 2 ≤ SHADOW_BYTES)
    (h : r.frameActive = true → r.Fresh s) (hactive : (r.refilled false s).frameActive = true) :
    (r.refilled false s).Fresh s ∧ (renderRefill false s r).Calm s := by
  have hfresh : (r.refilled false s).Fresh s := by
    cases hact : r.frameActive with
    | true =>
        rw [refilled_active false s hact]
        exact (h hact).out [] 0 r.pushed
    | false =>
        rw [refilled_idle false s hact] at hactive ⊢
        exact fresh_frameDecide hsmall hact hactive
  rw [renderRefill_eq, if_pos hactive]
  exact ⟨hfresh, hfresh.frameFill hactive⟩

theorem Calm.refill (hsmall : s.geomCols * s.geomRows * 2 ≤ SHADOW_BYTES) (h : r.Calm s) :
    (renderRefill false s r).Calm s := by
  cases hactive : (r.refilled false s).frameActive with
  | true => exact (calm_refill hsmall h.frame hactive).2
  | false =>
      cases hact : r.frameActive with
      | true =>
          rw [refilled_active false s hact] at hactive
          exact absurd (hact.symm.trans hactive) (by decide)
      | false =>
          obtain ⟨b, heq⟩ := refilled_quiet hact hactive
          rw [renderRefill_eq, hactive, if_neg Bool.false_ne_true, heq]
          exact ⟨fun ha => absurd (hact.symm.trans ha) Bool.false_ne_true, fun _ => h.idle hact⟩

/-- A calm state stays calm. -/
theorem Calm.next (hsmall : s.geomCols * s.geomRows * 2 ≤ SHADOW_BYTES) (h : r.Calm s) :
    (renderNextByte false s r).2.Calm s := by
  obtain ⟨off, heq⟩ := nextByte_state false s r
  rw [heq]
  split
  · exact (h.refill hsmall).out _ off none
  · exact h.out r.obuf off none

/-- A frame that starts leaves a calm state. -/
theorem calm_of_begins (hsmall : s.geomCols * s.geomRows * 2 ≤ SHADOW_BYTES)
    (hb : r.begins s = true) : (renderNextByte false s r).2.Calm s := by
  rw [begins, Bool.and_eq_true, Bool.and_eq_true, Bool.not_eq_true'] at hb
  obtain ⟨⟨hr, hidle⟩, hactive⟩ := hb
  obtain ⟨off, heq⟩ := nextByte_state false s r
  have hcalm := (calm_refill hsmall
    (fun ha => absurd (hidle.symm.trans ha) Bool.false_ne_true) hactive).2
  rw [heq, hr, if_pos rfl]
  exact hcalm.out _ off none

/-- In a calm state only repaints of the heal window start. -/
theorem Calm.heals_of_begins (hsmall : s.geomCols * s.geomRows * 2 ≤ SHADOW_BYTES) (h : r.Calm s)
    (hb : r.begins s = true) : r.heals s = true := by
  rw [begins, Bool.and_eq_true, Bool.and_eq_true, Bool.not_eq_true'] at hb
  obtain ⟨⟨hr, hidle⟩, hactive⟩ := hb
  obtain ⟨hclear, hsame⟩ := h.idle hidle
  have hfit : s.toobig = false := decide_eq_false (Nat.not_lt.mpr hsmall)
  rw [refilled_idle false s hidle] at hactive
  have hdue : r.cadence s = true ∧ r.healing s = true := by
    have hquiet := quiet_iff (r := { r with obuf := [], oOff := 0 }) hidle hfit hclear hsame
    by_contra hno
    rw [hquiet.mpr hno] at hactive
    cases hactive
  rw [heals, hr, hidle, hclear, hdue.1, hdue.2]
  rfl

/-! ## The work that is left at one tick -/

open Classical in
/-- How far the renderer is from silence while the tick stands still: a frame of old cells, the first
frame afterwards, and the repaint that may follow it. -/
noncomputable def stage (s : Screen) (r : Render) : Nat :=
  if r.frameActive = true then
    if r.Fresh s then if r.isRepaint = true then 1 else 3 else 5
  else if r.mustClear s = false ∧ r.settled s then if r.cadence s = true then 2 else 0 else 4

/-- The cells that the frame in progress has not walked. -/
def cellsLeft (r : Render) : Nat := r.totalCells - r.walkCell

/-- Every byte that is taken lowers the rank. -/
noncomputable def rank (s : Screen) (r : Render) : Nat ×ₗ Nat ×ₗ Nat :=
  toLex (r.stage s, toLex (r.cellsLeft, r.pending.length))

theorem stage_out (s : Screen) (r : Render) (o : List UInt8) (off : Nat) (b : Option UInt8) :
    ({ r with obuf := o, oOff := off, pushed := b } : Render).stage s = r.stage s := by
  have hfresh : ({ r with obuf := o, oOff := off, pushed := b } : Render).Fresh s ↔ r.Fresh s :=
    ⟨fun h => h.out r.obuf r.oOff r.pushed, fun h => h.out o off b⟩
  unfold stage
  rw [hfresh]
  rfl

theorem stage_fresh (h : r.Fresh s) (ha : r.frameActive = true) :
    r.stage s = if r.isRepaint = true then 1 else 3 := by
  rw [stage, if_pos ha, if_pos h]

theorem stage_settled (hidle : r.frameActive = false)
    (h : r.mustClear s = false ∧ r.settled s) :
    r.stage s = if r.cadence s = true then 2 else 0 := by
  rw [stage, if_neg (Bool.eq_false_iff.mp hidle), if_pos h]

theorem stage_idle_le (hidle : r.frameActive = false) : r.stage s ≤ 4 := by
  rw [stage, if_neg (Bool.eq_false_iff.mp hidle)]
  split
  · split <;> decide
  · exact Nat.le_refl 4

theorem stage_le (s : Screen) (r : Render) : r.stage s ≤ 5 := by
  cases hact : r.frameActive with
  | false => exact Nat.le_succ_of_le (stage_idle_le hact)
  | true =>
      rw [stage, if_pos hact]
      split
      · split <;> decide
      · exact Nat.le_refl 5

/-- A refill of a frame in progress completes it or walks some of its cells. -/
theorem frameFill_progress (s : Screen) (ha : r.frameActive = true)
    (hroom : r.obuf.length + 48 ≤ OBUF) :
    (frameFill s r).frameActive = false ∨
      (frameFill s r).frameActive = true ∧ (frameFill s r).isRepaint = r.isRepaint ∧
        (frameFill s r).cellsLeft < r.cellsLeft := by
  obtain ⟨hkept, hactive⟩ := fillLoop_kept s.base (r.totalCells - r.walkCell) r
  obtain ⟨hsame, -⟩ := fillLoop_ends s.base (r.totalCells - r.walkCell) r (by omega)
  obtain ⟨hle, hlt⟩ := fillLoop_walk s.base (r.totalCells - r.walkCell) r
  have htotal := hsame.total
  unfold frameFill
  dsimp only
  generalize fillLoop s.base (r.totalCells - r.walkCell) r = r' at *
  split
  · exact .inl rfl
  next hmore =>
    have hwalk : r.walkCell < r.totalCells := by omega
    have hnext := hlt (by omega) hwalk hroom
    refine .inr ⟨hactive.trans ha, congrArg Prod.fst hkept, ?_⟩
    unfold cellsLeft
    omega

/-- A fresh frame gets nearer to silence when it is completed. -/
theorem Fresh.stage_end (h : r.Fresh s) (ha : r.frameActive = true)
    (hend : (Dossh.frameFill s r).frameActive = false) :
    (Dossh.frameFill s r).stage s < r.stage s := by
  rw [stage_fresh h ha, stage_settled hend ((h.frameFill ha).idle hend)]
  by_cases hrep : r.isRepaint = true
  · have hcadence : (Dossh.frameFill s r).cadence s = false := by
      rw [cadence, (frameFill_ticks ha).2, hend, hrep]
      simp [CADENCE_TICKS]
    rw [hcadence, if_neg Bool.false_ne_true, if_pos hrep]
    exact Nat.one_pos
  · rw [if_neg hrep]
    split <;> decide

/-- What is left after `frame_fill`. -/
theorem frameFill_left (s : Screen) (ha : r.frameActive = true)
    (hroom : r.obuf.length + 48 ≤ OBUF) :
    (frameFill s r).stage s < r.stage s ∨
      (frameFill s r).stage s = r.stage s ∧ (frameFill s r).cellsLeft < r.cellsLeft := by
  by_cases hfresh : r.Fresh s
  · rcases frameFill_progress s ha hroom with hend | ⟨hactive, hrep, hless⟩
    · exact .inl (hfresh.stage_end ha hend)
    · refine .inr ⟨?_, hless⟩
      rw [stage_fresh ((hfresh.frameFill ha).frame hactive) hactive, stage_fresh hfresh ha, hrep]
  · have hstale : r.stage s = 5 := by rw [stage, if_pos ha, if_neg hfresh]
    rcases frameFill_progress s ha hroom with hend | ⟨hactive, -, hless⟩
    · have := stage_idle_le (s := s) hend
      exact .inl (by omega)
    · have := stage_le s (frameFill s r)
      rcases Nat.lt_or_eq_of_le this with hlt | heq
      · exact .inl (by omega)
      · exact .inr ⟨heq.trans hstale.symm, hless⟩

/-- A frame that starts is nearer to silence. -/
theorem frameDecide_stage (hsmall : s.geomCols * s.geomRows * 2 ≤ SHADOW_BYTES)
    (hidle : r.frameActive = false) (hstart : (frameDecide false s r).frameActive = true) :
    (frameDecide false s r).stage s < r.stage s := by
  have hfresh := fresh_frameDecide hsmall hidle hstart
  have hfit : s.toobig = false := decide_eq_false (Nat.not_lt.mpr hsmall)
  rw [stage_fresh hfresh hstart]
  by_cases hcalm : r.mustClear s = false ∧ r.settled s
  · -- a settled screen is painted again only in the heal window
    have hdue : r.cadence s = true ∧ r.healing s = true := by
      have hquiet := quiet_iff hidle hfit hcalm.1 hcalm.2
      by_contra hno
      rw [hquiet.mpr hno] at hstart
      cases hstart
    have hrep : (frameDecide false s r).isRepaint = true := by
      have hrepaints : r.repaints false s = true := by
        rw [repaints, hdue.1, hdue.2, Bool.false_or, Bool.true_and, Bool.or_true]
      rw [frameDecide_eq, hfit, if_neg Bool.false_ne_true, if_pos hrepaints]
      rfl
    rw [stage_settled hidle hcalm, hdue.1, if_pos hrep, if_pos rfl]
    decide
  · rw [stage, if_neg (Bool.eq_false_iff.mp hidle), if_neg hcalm]
    split <;> decide

/-- A refill that sends something gets nearer to silence. -/
theorem renderRefill_left (hsmall : s.geomCols * s.geomRows * 2 ≤ SHADOW_BYTES)
    (hactive : (r.refilled false s).frameActive = true) :
    (renderRefill false s r).stage s < r.stage s ∨
      (renderRefill false s r).stage s = r.stage s ∧
        (renderRefill false s r).cellsLeft < r.cellsLeft := by
  rw [renderRefill_eq, if_pos hactive]
  cases hact : r.frameActive with
  | true =>
      rw [refilled_active false s hact, ← stage_out s r [] 0 r.pushed]
      exact frameFill_left (r := { r with obuf := [], oOff := 0 }) s hact (by simp [OBUF])
  | false =>
      rw [refilled_idle false s hact] at hactive ⊢
      have hstart := frameDecide_stage (r := { r with obuf := [], oOff := 0 }) hsmall hact hactive
      have hroom : (frameDecide false s { r with obuf := [], oOff := 0 }).obuf.length + 48 ≤
          OBUF := by
        rcases frameDecide_cases false s { r with obuf := [], oOff := 0 } with
          ⟨b, heq, -⟩ | ⟨clear, repaint, b, heal, heq, -⟩
        · rw [heq]
          simp [OBUF]
        · rw [heq]
          exact frameStart_room _ _ _ _ rfl
      have hout := stage_out s r [] 0 r.pushed
      rcases frameFill_left s hactive hroom with hlt | ⟨heq, -⟩
      · exact .inl (hlt.trans (hstart.trans_eq hout))
      · exact .inl (heq.trans_lt (hstart.trans_eq hout))

end Render

/-! ## One call -/

/-- One call of `render_next_byte(0)` on a screen: the byte is taken, or handed back. -/
def idleStep (s : Screen) (taken : Bool) (r : Render) : Render :=
  match renderNextByte false s r with
  | (none, r') => r'
  | (some b, r') => if taken then r' else renderPushback b r'

theorem idleStep_eq (s : Screen) (taken : Bool) (r : Render) :
    ∃ b, idleStep s taken r = { (renderNextByte false s r).2 with pushed := b } := by
  unfold idleStep
  generalize renderNextByte false s r = res
  obtain ⟨b, r'⟩ := res
  cases b with
  | none => exact ⟨r'.pushed, rfl⟩
  | some b =>
      cases taken with
      | true => exact ⟨r'.pushed, rfl⟩
      | false => exact ⟨some b, rfl⟩

namespace Render

variable {s : Screen} {r : Render}

theorem Calm.step (hsmall : s.geomCols * s.geomRows * 2 ≤ SHADOW_BYTES) (h : r.Calm s)
    (taken : Bool) : (idleStep s taken r).Calm s := by
  obtain ⟨b, heq⟩ := idleStep_eq s taken r
  rw [heq]
  exact (h.next hsmall).out _ _ b

theorem calm_step_of_begins (hsmall : s.geomCols * s.geomRows * 2 ≤ SHADOW_BYTES)
    (hb : r.begins s = true) (taken : Bool) : (idleStep s taken r).Calm s := by
  obtain ⟨b, heq⟩ := idleStep_eq s taken r
  rw [heq]
  exact (calm_of_begins hsmall hb).out _ _ b

/-- A call that returns `-1` is followed by others at the same tick. -/
theorem none_stays (h : (renderNextByte false s r).1 = none) (taken : Bool) :
    idleStep s taken r = (renderNextByte false s r).2 ∧
      (renderNextByte false s (renderNextByte false s r).2).1 = none := by
  have hstep : idleStep s taken r = (renderNextByte false s r).2 := by
    unfold idleStep
    generalize renderNextByte false s r = res at *
    obtain ⟨b, r'⟩ := res
    subst h
    rfl
  obtain ⟨hr, hquiet⟩ := nextByte_eq_none_iff.mp h
  have hidle : r.frameActive = false := by
    refine Bool.eq_false_iff.mpr fun hact => ?_
    rw [refilled_active false s hact] at hquiet
    exact Bool.false_ne_true (hquiet.symm.trans hact)
  obtain ⟨b, heq⟩ := refilled_quiet hidle hquiet
  obtain ⟨off, hstate⟩ := nextByte_state false s r
  rw [hr, if_pos rfl, renderRefill_eq, hquiet, if_neg Bool.false_ne_true, heq] at hstate
  refine ⟨hstep, nextByte_eq_none_iff.mpr ?_⟩
  rw [hstate]
  refine ⟨rfl, ?_⟩
  -- the large-mode flag is set anew by every `frame_decide`
  have hagain : ({ r with obuf := [], oOff := off, isToobig := b, pushed := none } :
      Render).refilled false s = r.refilled false s := by
    rw [refilled_idle (r := r) false s hidle, ← (pending_of_refills hr).1]
    exact if_neg (Bool.eq_false_iff.mp hidle)
  rw [hagain]
  exact hquiet

theorem rank_lt {r' : Render} (h : r'.stage s < r.stage s ∨
    r'.stage s = r.stage s ∧ r'.cellsLeft < r.cellsLeft) : r'.rank s < r.rank s := by
  rw [rank, rank, Prod.Lex.toLex_lt_toLex]
  rcases h with hlt | ⟨heq, hlt⟩
  · exact .inl hlt
  · exact .inr ⟨heq, Prod.Lex.toLex_lt_toLex.mpr (.inl hlt)⟩

/-- A refused byte is pending again. -/
theorem idleStep_pending (s : Screen) (taken : Bool) (r : Render) :
    (idleStep s taken r).pending =
      (if taken then [] else (renderNextByte false s r).1.toList) ++
        (renderNextByte false s r).2.pending := by
  obtain ⟨off, hstate⟩ := nextByte_state false s r
  have hpushed : (renderNextByte false s r).2.pushed = none := by rw [hstate]
  unfold idleStep
  generalize renderNextByte false s r = res at *
  obtain ⟨b, r'⟩ := res
  cases b with
  | none => cases taken <;> rfl
  | some b =>
      cases taken with
      | true => rfl
      | false =>
          dsimp only at hpushed
          show (renderPushback b r').pending = _
          rw [pending, pending, hpushed]
          rfl

/-- A call lowers the rank, or it returns `-1`, or its byte is refused. -/
theorem idleStep_rank (hsmall : s.geomCols * s.geomRows * 2 ≤ SHADOW_BYTES) (taken : Bool) :
    (idleStep s taken r).rank s < r.rank s ∨
      (idleStep s taken r).rank s = r.rank s ∧
        ((renderNextByte false s r).1 = none ∨ taken = false) := by
  obtain ⟨b, hstep⟩ := idleStep_eq s taken r
  obtain ⟨off, hstate⟩ := nextByte_state false s r
  cases hr : r.refills with
  | false =>
      obtain ⟨⟨-, hbytes, -⟩, hsome⟩ := @renderNextByte_hands false s r hr
      obtain ⟨x, hx⟩ := Option.ne_none_iff_exists'.mp hsome
      have hpending := idleStep_pending s taken r
      rw [hr, if_neg Bool.false_ne_true] at hstate
      have hstage : (idleStep s taken r).stage s = r.stage s := by
        rw [hstep, hstate]
        exact stage_out s r r.obuf off b
      have hcells : (idleStep s taken r).cellsLeft = r.cellsLeft := by
        rw [hstep, hstate]
        rfl
      rw [hx] at hpending hbytes
      rw [rank, rank, hstage, hcells]
      cases taken with
      | true =>
          refine .inl (Prod.Lex.toLex_lt_toLex.mpr (.inr ⟨rfl, ?_⟩))
          refine Prod.Lex.toLex_lt_toLex.mpr (.inr ⟨rfl, ?_⟩)
          rw [hpending, ← hbytes]
          simp
      | false => exact .inr ⟨by rw [hpending, ← hbytes]; rfl, .inr rfl⟩
  | true =>
      rw [hr, if_pos rfl] at hstate
      cases hactive : (r.refilled false s).frameActive with
      | true =>
          refine .inl (rank_lt ?_)
          have hleft := renderRefill_left hsmall hactive
          rw [hstep, hstate]
          rw [← stage_out s (renderRefill false s r) (renderRefill false s r).obuf off b] at hleft
          exact hleft
      | false =>
          have hnone := nextByte_eq_none_iff.mpr ⟨hr, hactive⟩
          refine .inr ⟨?_, .inl hnone⟩
          have hidle : r.frameActive = false := by
            refine Bool.eq_false_iff.mpr fun hact => ?_
            rw [refilled_active false s hact] at hactive
            exact Bool.false_ne_true (hactive.symm.trans hact)
          obtain ⟨big, heq⟩ := refilled_quiet hidle hactive
          rw [renderRefill_eq, hactive, if_neg Bool.false_ne_true, heq] at hstate
          have hstage : (renderNextByte false s r).2.stage s = r.stage s := by
            rw [hstate, stage, stage]
            simp only [hidle]
            rfl
          have hcells : (renderNextByte false s r).2.cellsLeft = r.cellsLeft := by
            rw [hstate]
            rfl
          have hpending : (renderNextByte false s r).2.pending = r.pending := by
            rw [hstate, (pending_of_refills hr).2]
            exact List.drop_nil
          rw [(none_stays hnone taken).1, rank, rank, hstage, hcells, hpending]

end Render

/-! ## Runs -/

/-- Calls of `render_next_byte(0)` on a screen that fits the shadow and stays as it is, while the
counter advances and does not start again.  Each byte is taken, or handed back. -/
structure IdlePhase where
  screen : Screen
  tick : Nat → Nat
  taken : Nat → Bool
  fits : screen.geomCols * screen.geomRows * 2 ≤ SHADOW_BYTES
  mono : Monotone tick
  day : ∀ n, tick n / DAY_TICKS = tick 0 / DAY_TICKS

namespace IdlePhase

variable (p : IdlePhase) (r : Render)

/-- What call `n` sees. -/
def look (n : Nat) : Screen := p.screen.atTick (p.tick n)

/-- The renderer before call `n`. -/
def run : Nat → Render
  | 0 => r
  | n + 1 => idleStep (p.look n) (p.taken n) (run n)

/-- What call `n` returns. -/
def byte (n : Nat) : Option UInt8 := (renderNextByte false (p.look n) (p.run r n)).1

/-- The tick of the last reset or `frame_decide` that found a difference before call `n`; `heal` is
that before the phase. -/
def lastHeal (heal : Nat) : Nat → Nat
  | 0 => heal
  | n + 1 => if (p.run r n).sees false (p.look n) then p.tick n else lastHeal heal n

/-- Call `n` starts a forced, geometry or diff frame. -/
def StartsOther (n : Nat) : Prop :=
  (p.run r n).begins (p.look n) = true ∧ (p.run r n).heals (p.look n) = false

end IdlePhase

/-- What is sent on a constant screen: the frame in progress, at most one frame that is not a repaint
of the heal window, and such repaints within the heal window; and then nothing. -/
structure IdleSilence (p : IdlePhase) (r : Render) (heal : Nat) : Prop where
  framed : ∀ n, p.byte r n ≠ none → (p.run r n).pending ≠ [] ∨ (p.run r n).frameActive = true ∨
    (p.run r n).begins (p.look n) = true
  once : ∀ m n, p.StartsOther r m → p.StartsOther r n → m = n
  heals : ∀ n, (p.run r n).heals (p.look n) = true → p.tick n < p.lastHeal r heal n + 72
  finite : ∃ N, ∀ n ≥ N, p.byte r n ≠ none → p.taken n = false
  silent : (∀ N, ∃ n ≥ N, p.taken n = true) → ∃ N, ∀ n ≥ N, p.byte r n = none

namespace IdlePhase

variable {p : IdlePhase} {r : Render}

theorem look_fits (p : IdlePhase) (n : Nat) :
    (p.look n).geomCols * (p.look n).geomRows * 2 ≤ SHADOW_BYTES := p.fits

/-- A calm state stays calm. -/
theorem calm_from {m : Nat} (h : (p.run r m).Calm p.screen) :
    ∀ k, (p.run r (m + k)).Calm p.screen
  | 0 => h
  | k + 1 => by
      have hprev := calm_from h k
      exact ((hprev.atTick (p.tick (m + k))).step (p.look_fits (m + k)) (p.taken (m + k))).ofTick

theorem once_of_calm {m n : Nat} (hmn : m < n) (hm : (p.run r m).begins (p.look m) = true)
    (hn : p.StartsOther r n) : False := by
  have hcalm : (p.run r (m + 1)).Calm p.screen :=
    (Render.calm_step_of_begins (p.look_fits m) hm (p.taken m)).ofTick
  obtain ⟨k, rfl⟩ := Nat.exists_eq_add_of_lt hmn
  have hrest := calm_from hcalm k
  rw [Nat.add_right_comm] at hrest
  have hheals := (hrest.atTick (p.tick (m + k + 1))).heals_of_begins (p.look_fits (m + k + 1)) hn.1
  exact Bool.false_ne_true (hn.2.symm.trans hheals)

/-- The counter stands still in the end. -/
theorem tick_stable (p : IdlePhase) : ∃ N, ∀ n ≥ N, p.tick n = p.tick N := by
  have hbound : ∀ n, p.tick n < (p.tick 0 / DAY_TICKS + 1) * DAY_TICKS := by
    intro n
    rw [← p.day n]
    have hpos : 0 < DAY_TICKS := by decide
    rw [Nat.add_mul, Nat.one_mul]
    exact Nat.lt_div_mul_add hpos
  have hanti : Antitone fun n => (p.tick 0 / DAY_TICKS + 1) * DAY_TICKS - p.tick n :=
    fun m n hmn => Nat.sub_le_sub_left (p.mono hmn) _
  obtain ⟨N, hN⟩ := WellFoundedLT.antitone_chain_condition hanti
  refine ⟨N, fun n hn => ?_⟩
  have heq := hN n hn
  have h1 := hbound n
  have h2 := hbound N
  omega

/-- From some call on every call returns `-1`, or every byte is refused. -/
theorem silent_or_refused (p : IdlePhase) (r : Render) :
    ∃ N, (∀ n ≥ N, p.byte r n = none) ∨ ∀ n ≥ N, p.byte r n ≠ none ∧ p.taken n = false := by
  obtain ⟨K, hK⟩ := p.tick_stable
  have hlook : ∀ n ≥ K, p.look n = p.look K := by
    intro n hn
    rw [look, look, hK n hn]
  have hstep : ∀ n ≥ K, p.run r (n + 1) = idleStep (p.look K) (p.taken n) (p.run r n) := by
    intro n hn
    rw [← hlook n hn]
    rfl
  -- at one tick the rank never grows
  have hanti : Antitone fun k => (p.run r (K + k)).rank (p.look K) := by
    refine antitone_nat_of_succ_le fun k => ?_
    have hle := Render.idleStep_rank (r := p.run r (K + k)) (p.look_fits K) (p.taken (K + k))
    rw [← hstep (K + k) (Nat.le_add_right K k)] at hle
    rcases hle with hlt | ⟨heq, -⟩
    · exact hlt.le
    · exact heq.le
  obtain ⟨M, hM⟩ := WellFoundedLT.antitone_chain_condition hanti
  have hrest : ∀ n ≥ K + M, p.byte r n = none ∨ p.taken n = false := by
    intro n hn
    obtain ⟨k, rfl⟩ := Nat.exists_eq_add_of_le (Nat.le_trans (Nat.le_add_right K M) hn)
    have hsame : (p.run r (K + k + 1)).rank (p.look K) = (p.run r (K + k)).rank (p.look K) := by
      have h1 := hM k (by omega)
      have h2 := hM (k + 1) (by omega)
      exact h2.symm.trans h1
    have hleft := Render.idleStep_rank (r := p.run r (K + k)) (p.look_fits K)
      (p.taken (K + k))
    rw [← hstep (K + k) (Nat.le_add_right K k), hsame] at hleft
    rw [byte, hlook (K + k) (Nat.le_add_right K k)]
    exact (hleft.resolve_left (lt_irrefl _)).2
  by_cases hnone : ∃ n ≥ K + M, p.byte r n = none
  · obtain ⟨n, hn, hquiet⟩ := hnone
    refine ⟨n, .inl fun m hm => ?_⟩
    obtain ⟨k, rfl⟩ := Nat.exists_eq_add_of_le hm
    induction k with
    | zero => exact hquiet
    | succ k ih =>
        have hprev := ih (Nat.le_add_right n k)
        have hge : n + k ≥ K := by omega
        rw [byte, hlook (n + k) hge] at hprev
        obtain ⟨heq, hagain⟩ := Render.none_stays hprev (p.taken (n + k))
        rw [byte, hlook (n + (k + 1)) (by omega)]
        show (renderNextByte false (p.look K) (p.run r (n + k + 1))).1 = none
        rw [hstep (n + k) hge, heq]
        exact hagain
  · refine ⟨K + M, .inr fun n hn => ?_⟩
    have hsome : p.byte r n ≠ none := fun h => hnone ⟨n, hn, h⟩
    exact ⟨hsome, (hrest n hn).resolve_left hsome⟩

/-- Only the heal window can be too long. -/
theorem silence_of {heal : Nat}
    (h : ∀ n, (p.run r n).heals (p.look n) = true → p.tick n < p.lastHeal r heal n + 72) :
    IdleSilence p r heal := by
  refine ⟨fun n hsome => ?_, fun m n hm hn => ?_, h, ?_, fun hoften => ?_⟩
  · cases hr : (p.run r n).refills with
    | false =>
        obtain ⟨⟨-, hbytes, -⟩, -⟩ := @Render.renderNextByte_hands false (p.look n) _ hr
        refine .inl fun hnil => hsome ?_
        rw [hnil, List.append_eq_nil_iff] at hbytes
        exact Option.toList_eq_nil_iff.mp hbytes.1
    | true =>
        cases hact : (p.run r n).frameActive with
        | true => exact .inr (.inl rfl)
        | false =>
            refine .inr (.inr ?_)
            rw [Render.begins, hr, hact]
            refine Bool.not_eq_false _ ▸ fun hquiet => hsome ?_
            exact Render.nextByte_eq_none_iff.mpr ⟨hr, hquiet⟩
  · rcases Nat.lt_trichotomy m n with hlt | heq | hgt
    · exact (once_of_calm hlt hm.1 hn).elim
    · exact heq
    · exact (once_of_calm hgt hn.1 hm).elim
  · obtain ⟨N, hquiet | hrefused⟩ := p.silent_or_refused r
    · exact ⟨N, fun n hn hsome => absurd (hquiet n hn) hsome⟩
    · exact ⟨N, fun n hn _ => (hrefused n hn).2⟩
  · obtain ⟨N, hquiet | hrefused⟩ := p.silent_or_refused r
    · exact ⟨N, hquiet⟩
    · obtain ⟨n, hn, htaken⟩ := hoften N
      exact absurd ((hrefused n hn).2.symm.trans htaken) Bool.false_ne_true

/-- `heal_kf` is the counter at the last reset or difference. -/
theorem healKf_eq {heal : Nat} (h : r.healKf = biosTicks heal) :
    ∀ n, (p.run r n).healKf = biosTicks (p.lastHeal r heal n)
  | 0 => h
  | n + 1 => by
      obtain ⟨b, heq⟩ := idleStep_eq (p.look n) (p.taken n) (p.run r n)
      have hstep : (p.run r (n + 1)).healKf =
          (renderNextByte false (p.look n) (p.run r n)).2.healKf := by
        rw [run, heq]
      rw [hstep, (Render.nextByte_ticks false (p.look n) (p.run r n)).2, healKf_eq h n, lastHeal]
      split <;> rfl

theorem healing_iff {heal : Nat} (h : r.healKf = biosTicks heal) (n : Nat) :
    (p.run r n).healing (p.look n) = true ↔
      p.tick n % DAY_TICKS < p.lastHeal r heal n % DAY_TICKS + 72 := by
  have hnow : (p.look n).ticks = biosTicks (p.tick n) := rfl
  rw [Render.healing, decide_eq_true_eq, hnow, healKf_eq h n, biosTicks, biosTicks,
    Clock.elapsed (by decide) (by decide)]
  unfold HEAL_TICKS
  omega

/-- A difference that was seen on the day of the phase is never followed by a midnight. -/
theorem lastHeal_today {heal : Nat} (hday : heal / DAY_TICKS = p.tick 0 / DAY_TICKS) :
    ∀ n, p.lastHeal r heal n / DAY_TICKS = p.tick 0 / DAY_TICKS
  | 0 => hday
  | n + 1 => by
      rw [lastHeal]
      split
      · exact p.day n
      · exact lastHeal_today hday n

/-- On one day the counter shows when the heal window is over. -/
theorem over_today {heal : Nat} (hday : heal / DAY_TICKS = p.tick 0 / DAY_TICKS) {n : Nat}
    (hover : p.lastHeal r heal n + 72 ≤ p.tick n) :
    p.lastHeal r heal n % DAY_TICKS + 72 ≤ p.tick n % DAY_TICKS := by
  have htoday := lastHeal_today (r := r) hday n
  rw [← p.day n] at htoday
  rw [Clock.mod_same_day (by omega) htoday.symm]
  omega

end IdlePhase

/-- Without a midnight since the last reset or difference the renderer falls silent. -/
theorem idle_silence_today {t full heal : Nat} {r : Render} (h : RenderReach t r full heal)
    (p : IdlePhase) (hday : heal / DAY_TICKS = p.tick 0 / DAY_TICKS) : IdleSilence p r heal := by
  refine IdlePhase.silence_of fun n hheals => ?_
  rw [Render.heals, Bool.and_eq_true, IdlePhase.healing_iff h.ticks.2 n] at hheals
  by_contra hlate
  have := IdlePhase.over_today (r := r) hday (Nat.not_lt.mp hlate)
  omega

/-- **Idle silence.**  From every reachable state, a constant screen gets the rest of the frame in
progress, at most one other frame, finitely many repaints of the heal window and then nothing.  All
these repaints start within the heal window exactly if the counter shows that the window is over,
whenever it is and such a repaint would be due. -/
theorem idle_silence_iff {t full heal : Nat} {r : Render} (h : RenderReach t r full heal)
    (p : IdlePhase) :
    IdleSilence p r heal ↔
      ∀ n, (p.run r n).refills = true → (p.run r n).frameActive = false →
        (p.run r n).mustClear (p.look n) = false → (p.run r n).cadence (p.look n) = true →
        p.lastHeal r heal n + 72 ≤ p.tick n →
        p.lastHeal r heal n % DAY_TICKS + 72 ≤ p.tick n % DAY_TICKS := by
  have hheal := h.ticks.2
  constructor
  · intro hsilence n hr hidle hclear hcadence hover
    by_contra hopen
    have hheals : (p.run r n).heals (p.look n) = true := by
      rw [Render.heals, hr, hidle, hclear, hcadence,
        (IdlePhase.healing_iff hheal n).mpr (Nat.not_le.mp hopen)]
      rfl
    have := hsilence.heals n hheals
    omega
  · intro hcond
    refine IdlePhase.silence_of fun n hheals => ?_
    simp only [Render.heals, Bool.and_eq_true, Bool.not_eq_true'] at hheals
    obtain ⟨⟨⟨⟨hr, hidle⟩, hclear⟩, hcadence⟩, hhealing⟩ := hheals
    rw [IdlePhase.healing_iff hheal n] at hhealing
    by_contra hlate
    have := hcond n hr hidle hclear hcadence (Nat.not_lt.mp hlate)
    omega

/-- A screen of two cells from tick 5 on. -/
def tinyPhase : IdlePhase where
  screen := tinyScreen
  tick n := min (5 + n / 64) 1000
  taken n := n % 3 ≠ 0
  fits := by decide
  mono m n hmn := by
    have := Nat.div_le_div_right (c := 64) hmn
    dsimp only
    omega
  day n := by
    unfold DAY_TICKS
    omega

/-- A session that starts at tick 5 falls silent. -/
theorem idle_silence_iff_tiny :
    RenderReach 5 (renderReset (biosTicks 5) coldRender) 0 5 ∧
      IdleSilence tinyPhase (renderReset (biosTicks 5) coldRender) 5 := by
  have hreach : RenderReach 5 (renderReset (biosTicks 5) coldRender) 0 5 := .reset (.start 5)
  exact ⟨hreach, (idle_silence_iff hreach tinyPhase).mpr fun n _ _ _ _ hover =>
    IdlePhase.over_today (by decide) hover⟩

/-- The same session across midnight: it starts at the last tick of a day, and from the first one of
the next day on the screen is constant. -/
def midnightPhase : IdlePhase where
  screen := tinyScreen
  tick n := if n < 60 then DAY_TICKS else DAY_TICKS + 200
  taken _ := true
  fits := by decide
  mono m n hmn := by
    dsimp only
    split <;> split <;> omega
  day n := by
    split <;> decide

/-- Two hundred ticks after the reset a repaint of the heal window starts. -/
theorem flash_after_midnight :
    RenderReach (0x1800AF + 1) (renderReset (biosTicks 0x1800AF) coldRender) 0 0x1800AF ∧
      ¬ IdleSilence midnightPhase (renderReset (biosTicks 0x1800AF) coldRender) 0x1800AF := by
  refine ⟨.tick (.reset (.start _)), fun h => ?_⟩
  have hheals : (midnightPhase.run (renderReset (biosTicks 0x1800AF) coldRender) 60).heals
      (midnightPhase.look 60) = true := by
    decide +kernel
  have hlast : midnightPhase.lastHeal (renderReset (biosTicks 0x1800AF) coldRender) 0x1800AF 60 =
      0x1800AF := by
    decide +kernel
  have hlate := h.heals 60 hheals
  rw [hlast] at hlate
  exact absurd hlate (by decide)

end Dossh
