import Dossh.Render.Model

/-!
# The repaint cadence at midnight

`frame_decide` compares the tick counter with `last_kf`, the tick of the last full frame, and with
`heal_kf`, the tick of the last change, by the sign of a 32-bit difference.  The counter of the BIOS
starts again at midnight, so both comparisons go wrong when the stored tick is of the day before.

A run is timed by the number of ticks since some midnight.
-/

namespace Dossh

/-! ## What `frame_decide` looks at -/

/-- The screen does not fit into the shadow. -/
def Screen.toobig (s : Screen) : Bool := s.geomCols * s.geomRows * 2 > SHADOW_BYTES

namespace Render

variable (serial : Bool) (s : Screen) (r : Render)

/-- `clear`, for a screen that fits into the shadow. -/
def mustClear : Bool :=
  r.forceKf || !r.shadowValid || s.geomCols ≠ r.shCols || s.geomRows ≠ r.shRows

/-- The cadence has passed since the last full frame. -/
def cadence : Bool := CADENCE_TICKS ≤ (s.ticks - r.lastKf).toInt

/-- The screen has changed lately. -/
def healing : Bool := (s.ticks - r.healKf).toInt < HEAL_TICKS

/-- The number of cells that differ from the shadow. -/
def changed : Nat :=
  (List.range (s.geomCols * s.geomRows)).countP (cellChanged s.base r.shadow)

/-- `repaint`, for a screen that fits into the shadow and before the cells are compared. -/
def repaints : Bool := r.mustClear s || (r.cadence s && (serial || r.healing s))

/-- There is nothing to send but a repaint. -/
abbrev settled : Prop := r.changed s = 0 ∧ s.cursorRow = r.lastCurR ∧ s.cursorCol = r.lastCurC

/-- A full frame is started. -/
def StartsFull : Prop := r.frameActive = true ∧ r.isRepaint = true

/-- `frame_decide` with its tests by name. -/
theorem frameDecide_eq :
    frameDecide serial s r =
      if s.toobig then
        if r.forceKf || r.cadence s then
          frameStart s.geomCols s.geomRows true true { r with isToobig := true }
        else { r with isToobig := true }
      else if r.repaints serial s then
        frameStart s.geomCols s.geomRows (r.mustClear s) true { r with isToobig := false }
      else if r.changed s = 0 ∧ s.cursorRow = r.lastCurR ∧ s.cursorCol = r.lastCurC then
        { r with isToobig := false }
      else
        frameStart s.geomCols s.geomRows (r.mustClear s)
          (r.changed s * 4 > s.geomCols * s.geomRows * 2 / 2 * 3)
          { r with
            isToobig := false, healKf := if r.changed s ≠ 0 then s.ticks else r.healKf } := by
  unfold frameDecide Screen.toobig
  by_cases hbig : s.geomCols * s.geomRows * 2 > SHADOW_BYTES
  · simp only [hbig, decide_true, if_true]
    rfl
  · simp only [hbig, decide_false, if_false, Bool.false_eq_true]
    rfl

/-- A full frame is due whatever the ticks are. -/
def otherFull : Prop :=
  if s.toobig then r.forceKf = true
  else r.mustClear s = true ∨
    r.changed s * 4 > s.geomCols * s.geomRows * 2 / 2 * 3

variable {serial s r}

/-- Full frames in a large mode and on serial. -/
theorem startsFull_iff (hidle : r.frameActive = false) (h : s.toobig = true ∨ serial = true) :
    (frameDecide serial s r).StartsFull ↔ r.cadence s = true ∨ r.otherFull s := by
  rw [frameDecide_eq]
  unfold otherFull StartsFull
  cases hbig : s.toobig with
  | true =>
      rw [if_pos rfl, if_pos rfl]
      split
      next hfull =>
        refine iff_of_true ⟨rfl, rfl⟩ ?_
        rw [Bool.or_eq_true] at hfull
        exact hfull.symm
      next hno =>
        rw [Bool.or_eq_true, not_or] at hno
        refine iff_of_false ?_ ?_
        · rintro ⟨hactive, -⟩
          exact Bool.false_ne_true (hidle.symm.trans hactive)
        · rintro (hc | hf)
          · exact hno.2 hc
          · exact hno.1 hf
  | false =>
      have hserial : serial = true := by
        rcases h with h | h
        · rw [hbig] at h
          cases h
        · exact h
      rw [if_neg Bool.false_ne_true, if_neg Bool.false_ne_true, repaints, hserial, Bool.true_or,
        Bool.and_true]
      split
      next hfull =>
        refine iff_of_true ⟨rfl, rfl⟩ ?_
        rw [Bool.or_eq_true] at hfull
        rcases hfull with hc | hc
        · exact .inr (.inl hc)
        · exact .inl hc
      next hno =>
        rw [Bool.or_eq_true, not_or] at hno
        split
        next hsame =>
          refine iff_of_false ?_ ?_
          · rintro ⟨hactive, -⟩
            exact Bool.false_ne_true (hidle.symm.trans hactive)
          · rintro (hc | hc | hc)
            · exact hno.2 hc
            · exact hno.1 hc
            · rw [hsame.1] at hc
              omega
        next =>
          constructor
          · rintro ⟨-, hrep⟩
            exact .inr (.inr (of_decide_eq_true hrep))
          · rintro (hc | hc | hc)
            · exact absurd hc hno.2
            · exact absurd hc hno.1
            · exact ⟨rfl, decide_eq_true hc⟩

/-- On the network a settled screen is left alone unless it is healing. -/
theorem quiet_iff (hidle : r.frameActive = false) (hbig : s.toobig = false)
    (hclear : r.mustClear s = false) (hsame : r.settled s) :
    (frameDecide false s r).frameActive = false ↔ ¬ (r.cadence s = true ∧ r.healing s = true) := by
  rw [frameDecide_eq, hbig, if_neg Bool.false_ne_true, repaints, hclear, Bool.false_or,
    Bool.false_or]
  split
  next hheal =>
    rw [Bool.and_eq_true] at hheal
    exact iff_of_false (fun h => Bool.false_ne_true h.symm) fun h => h hheal
  next hno =>
    rw [Bool.and_eq_true] at hno
    exact iff_of_true hidle hno

/-! ## The stored ticks -/

/-- The state in which `render_next_byte` fills its buffer. -/
def refilled (serial : Bool) (s : Screen) (r : Render) : Render :=
  let r := { r with obuf := [], oOff := 0 }
  if r.frameActive then r else frameDecide serial s r

/-- `render_next_byte` has nothing to return and fills its buffer. -/
def refills (r : Render) : Bool := r.pushed.isNone && !(r.oOff < r.obuf.length)

/-- `render_next_byte` completes a full frame. -/
def completes (serial : Bool) (s : Screen) (r : Render) : Bool :=
  r.refills && (r.refilled serial s).frameActive && !(frameFill s (r.refilled serial s)).frameActive &&
    ((r.refilled serial s).isRepaint || (r.refilled serial s).isToobig)

/-- `render_next_byte` sees a change of the screen. -/
def sees (serial : Bool) (s : Screen) (r : Render) : Bool :=
  r.refills && !r.frameActive && !s.toobig &&
    !r.repaints serial s && r.changed s ≠ 0

/-- The fields that filling leaves alone. -/
abbrev kept (r : Render) : Bool × Bool × BitVec 32 × BitVec 32 :=
  (r.isRepaint, r.isToobig, r.lastKf, r.healKf)

theorem fillCell_kept (v : Nat → UInt8) (r : Render) :
    (fillCell v r).kept = r.kept ∧ (fillCell v r).frameActive = r.frameActive := by
  unfold fillCell
  dsimp only
  split <;> exact ⟨rfl, rfl⟩

theorem fillLoop_kept (v : Nat → UInt8) : ∀ (fuel : Nat) (r : Render),
    (fillLoop v fuel r).kept = r.kept ∧ (fillLoop v fuel r).frameActive = r.frameActive
  | 0, _ => ⟨rfl, rfl⟩
  | fuel + 1, r => by
      rw [fillLoop]
      split
      · split
        · exact ⟨rfl, rfl⟩
        · obtain ⟨hkept, hactive⟩ := fillLoop_kept v fuel (fillCell v r)
          obtain ⟨hkept', hactive'⟩ := fillCell_kept v r
          exact ⟨hkept.trans hkept', hactive.trans hactive'⟩
      · exact ⟨rfl, rfl⟩

/-- `frame_fill` stores the tick of a full frame that it completes. -/
theorem frameFill_ticks (h : r.frameActive = true) :
    (frameFill s r).healKf = r.healKf ∧
      (frameFill s r).lastKf =
        if !(frameFill s r).frameActive && (r.isRepaint || r.isToobig) then s.ticks
        else r.lastKf := by
  obtain ⟨hkept, hactive⟩ := fillLoop_kept s.base (r.totalCells - r.walkCell) r
  simp only [kept, Prod.mk.injEq] at hkept
  obtain ⟨hrep, hbig, hlast, hheal⟩ := hkept
  unfold frameFill
  generalize fillLoop s.base (r.totalCells - r.walkCell) r = r₁ at *
  dsimp only
  split
  · simp only [frameEnd, hrep, hbig, hlast, Bool.not_false, Bool.true_and]
    exact ⟨hheal, trivial⟩
  · rw [hactive, h]
    exact ⟨hheal, hlast⟩

theorem frameStart_ticks (cols rows : Nat) (clear repaint : Bool) (r : Render) :
    (frameStart cols rows clear repaint r).lastKf = r.lastKf ∧
      (frameStart cols rows clear repaint r).healKf = r.healKf := ⟨rfl, rfl⟩

/-- `frame_decide` stores the tick of a change that it sees, and leaves that of the last full
frame. -/
theorem frameDecide_ticks (serial : Bool) (s : Screen) (r : Render) :
    (frameDecide serial s r).lastKf = r.lastKf ∧
      (frameDecide serial s r).healKf =
        if !s.toobig && !r.repaints serial s && r.changed s ≠ 0 then s.ticks else r.healKf := by
  rw [frameDecide_eq]
  cases hbig : s.toobig with
  | true =>
      simp only [if_true, Bool.not_true, Bool.false_and, Bool.false_eq_true, if_false]
      split
      · exact frameStart_ticks _ _ _ _ _
      · exact ⟨rfl, rfl⟩
  | false =>
      simp only [Bool.not_false, Bool.true_and, Bool.false_eq_true, if_false]
      cases hrep : r.repaints serial s with
      | true =>
          simp only [if_true, Bool.not_true, Bool.false_and, Bool.false_eq_true, if_false]
          exact frameStart_ticks _ _ _ _ _
      | false =>
          simp only [Bool.not_false, Bool.true_and, Bool.false_eq_true, if_false,
            decide_eq_true_eq]
          split
          next hsame =>
            rw [if_neg (not_not_intro hsame.1)]
            exact ⟨rfl, rfl⟩
          next => exact frameStart_ticks _ _ _ _ _

theorem renderRefill_eq (serial : Bool) (s : Screen) (r : Render) :
    renderRefill serial s r =
      if (r.refilled serial s).frameActive then frameFill s (r.refilled serial s)
      else r.refilled serial s := rfl

theorem obufNext_ticks (r : Render) :
    (obufNext r).2.lastKf = r.lastKf ∧ (obufNext r).2.healKf = r.healKf := by
  unfold obufNext
  split <;> exact ⟨rfl, rfl⟩

theorem refilled_ticks (serial : Bool) (s : Screen) (r : Render) :
    (r.refilled serial s).lastKf = r.lastKf ∧
      (r.refilled serial s).healKf =
        if !r.frameActive && !s.toobig && !r.repaints serial s && r.changed s ≠ 0 then s.ticks
        else r.healKf := by
  unfold refilled
  dsimp only
  by_cases hactive : r.frameActive = true
  · rw [if_pos hactive, hactive]
    exact ⟨rfl, rfl⟩
  · have hidle : (!r.frameActive) = true := by simpa using hactive
    rw [if_neg hactive, hidle, Bool.true_and]
    exact frameDecide_ticks serial s { r with obuf := [], oOff := 0 }

/-- `render_next_byte` stores ticks when it completes a full frame and when it sees a change. -/
theorem nextByte_ticks (serial : Bool) (s : Screen) (r : Render) :
    (renderNextByte serial s r).2.lastKf = (if r.completes serial s then s.ticks else r.lastKf) ∧
      (renderNextByte serial s r).2.healKf = if r.sees serial s then s.ticks else r.healKf := by
  unfold renderNextByte completes sees refills
  cases r.pushed with
  | some b => exact ⟨rfl, rfl⟩
  | none =>
      dsimp only
      by_cases hout : r.oOff < r.obuf.length
      · rw [if_pos hout]
        obtain ⟨hlast, hheal⟩ := obufNext_ticks r
        simp only [hout, decide_true, Bool.not_true, Bool.and_false, Bool.false_and,
          Bool.false_eq_true, if_false]
        exact ⟨hlast, hheal⟩
      · rw [if_neg hout]
        obtain ⟨hlast, hheal⟩ := obufNext_ticks (renderRefill serial s r)
        obtain ⟨hlast', hheal'⟩ := refilled_ticks serial s r
        rw [hlast, hheal, renderRefill_eq]
        simp only [hout, decide_false, Bool.not_false, Option.isNone_none, Bool.true_and]
        split
        next hactive =>
          obtain ⟨hfill, hfill'⟩ := frameFill_ticks (s := s) hactive
          rw [hfill, hfill', hlast', hheal', hactive, Bool.true_and]
          exact ⟨rfl, rfl⟩
        next hidle =>
          rw [Bool.not_eq_true] at hidle
          rw [hlast', hheal', hidle]
          exact ⟨rfl, rfl⟩

end Render

/-! ## Timed runs -/

/-- The renderer at a tick, with the tick at which it last completed a full frame and that of the
last reset or change that it saw. -/
inductive RenderReach : Nat → Render → Nat → Nat → Prop where
  | start (t : Nat) : RenderReach t coldRender 0 0
  | tick {t full heal : Nat} {r : Render} (h : RenderReach t r full heal) :
      RenderReach (t + 1) r full heal
  | reset {t full heal : Nat} {r : Render} (h : RenderReach t r full heal) :
      RenderReach t (renderReset (biosTicks t) r) full t
  | pushback {t full heal : Nat} {r : Render} (b : UInt8) (h : RenderReach t r full heal) :
      RenderReach t (renderPushback b r) full heal
  | next {t full heal : Nat} {r : Render} (serial : Bool) (s : Screen) (hs : s.ticks = biosTicks t)
      (h : RenderReach t r full heal) :
      RenderReach t (renderNextByte serial s r).2 (if r.completes serial s then t else full)
        (if r.sees serial s then t else heal)

theorem RenderReach.ticks {t full heal : Nat} {r : Render} (h : RenderReach t r full heal) :
    r.lastKf = biosTicks full ∧ r.healKf = biosTicks heal := by
  induction h with
  | start => exact ⟨rfl, rfl⟩
  | tick _ ih => exact ih
  | reset _ ih => exact ⟨ih.1, rfl⟩
  | pushback _ _ ih => exact ih
  | @next t full heal r serial s hs _ ih =>
      obtain ⟨hlast, hheal⟩ := Render.nextByte_ticks serial s r
      rw [hlast, hheal, hs, ih.1, ih.2]
      constructor
      · split <;> rfl
      · split <;> rfl

/-- What `frame_decide` owes at tick `t`: a full frame once the cadence has passed since the last
one, in a large mode and on serial; and no frame for a settled screen on the network once it was
`HEAL_TICKS` without a change. -/
structure CadenceKept (serial : Bool) (s : Screen) (r : Render) (t full heal : Nat) : Prop where
  recurs : s.toobig = true ∨ serial = true → full + 36 ≤ t → (frameDecide serial s r).StartsFull
  stops : serial = false → s.toobig = false → r.mustClear s = false → r.settled s →
    heal + 72 ≤ t → (frameDecide serial s r).frameActive = false

/-- **The repaint cadence at midnight.**  A renderer between two frames keeps its cadence at a tick
exactly if the counter shows that the cadence has passed whenever it has (or a full frame is due
for another reason), and, for a settled screen on the network, that the heal window is over
whenever it is and a repaint would be due. -/
theorem cadence_at_midnight {t full heal : Nat} {r : Render} (h : RenderReach t r full heal)
    (hidle : r.frameActive = false) (serial : Bool) {s : Screen} (hs : s.ticks = biosTicks t) :
    CadenceKept serial s r t full heal ↔
      (s.toobig = true ∨ serial = true → full + 36 ≤ t →
        full % DAY_TICKS + 36 ≤ t % DAY_TICKS ∨ r.otherFull s) ∧
      (serial = false → s.toobig = false → r.mustClear s = false → r.settled s → heal + 72 ≤ t →
        t % DAY_TICKS < full % DAY_TICKS + 36 ∨ heal % DAY_TICKS + 72 ≤ t % DAY_TICKS) := by
  obtain ⟨hlast, hheal⟩ := h.ticks
  have hcadence : r.cadence s = true ↔ full % DAY_TICKS + 36 ≤ t % DAY_TICKS := by
    rw [Render.cadence, decide_eq_true_eq, hs, hlast, biosTicks, biosTicks,
      Clock.elapsed (by decide) (by decide)]
    unfold CADENCE_TICKS
    omega
  have hhealing : r.healing s = true ↔ t % DAY_TICKS < heal % DAY_TICKS + 72 := by
    rw [Render.healing, decide_eq_true_eq, hs, hheal, biosTicks, biosTicks,
      Clock.elapsed (by decide) (by decide)]
    unfold HEAL_TICKS
    omega
  constructor
  · rintro ⟨hrecurs, hstops⟩
    refine ⟨fun hmode hdue => ?_, fun hnet hbig hclear hsame hdue => ?_⟩
    · rw [← hcadence, ← Render.startsFull_iff hidle hmode]
      exact hrecurs hmode hdue
    · have hquiet := hstops hnet hbig hclear hsame hdue
      rw [hnet, Render.quiet_iff hidle hbig hclear hsame, hcadence, hhealing] at hquiet
      omega
  · rintro ⟨hrecurs, hstops⟩
    refine ⟨fun hmode hdue => ?_, fun hnet hbig hclear hsame hdue => ?_⟩
    · rw [Render.startsFull_iff hidle hmode, hcadence]
      exact hrecurs hmode hdue
    · have hquiet := hstops hnet hbig hclear hsame hdue
      rw [hnet, Render.quiet_iff hidle hbig hclear hsame, hcadence, hhealing]
      omega

/-- A screen of two cells at tick `t`. -/
def tinyAt (t : Nat) : Screen := { tinyScreen with ticks := biosTicks t }

/-- The renderer after the first call on serial at tick `t`, which paints all of the screen. -/
def paintedAt (t : Nat) : Render := (renderNextByte true (tinyAt t) coldRender).2

theorem paintedAt_reach {t : Nat} (hfull : coldRender.completes true (tinyAt t) = true)
    (hsees : coldRender.sees true (tinyAt t) = false) :
    ∀ k, RenderReach (t + k) (paintedAt t) t 0
  | 0 => by
      have h := RenderReach.next true (tinyAt t) rfl (.start t)
      rwa [hfull, hsees] at h
  | k + 1 => .tick (paintedAt_reach hfull hsees k)

/-- A full frame of noon is followed by another one when the cadence has passed. -/
theorem cadence_at_midnight_noon :
    RenderReach 786556 (paintedAt 786520) 786520 0 ∧ (paintedAt 786520).frameActive = false ∧
      CadenceKept true (tinyAt 786556) (paintedAt 786520) 786556 786520 0 := by
  have hreach : RenderReach 786556 (paintedAt 786520) 786520 0 :=
    paintedAt_reach (by decide +kernel) (by decide +kernel) 36
  have hidle : (paintedAt 786520).frameActive = false := by decide +kernel
  refine ⟨hreach, hidle, (cadence_at_midnight hreach hidle true rfl).mpr ⟨fun _ _ => .inl ?_, ?_⟩⟩
  · decide
  · exact nofun

/-- After a full frame of the last tick of a day no other one is started on serial when the
cadence has passed. -/
theorem midnight_freezes :
    RenderReach 0x1800D3 (paintedAt 0x1800AF) 0x1800AF 0 ∧
      (paintedAt 0x1800AF).frameActive = false ∧
      (frameDecide true (tinyAt 0x1800D3) (paintedAt 0x1800AF)).frameActive = false ∧
      ¬ CadenceKept true (tinyAt 0x1800D3) (paintedAt 0x1800AF) 0x1800D3 0x1800AF 0 := by
  have hnone : (frameDecide true (tinyAt 0x1800D3) (paintedAt 0x1800AF)).frameActive = false := by
    decide +kernel
  refine ⟨paintedAt_reach (by decide +kernel) (by decide +kernel) 36, by decide +kernel, hnone, ?_⟩
  rintro ⟨hrecurs, -⟩
  have hactive := (hrecurs (.inr rfl) (by decide)).1
  rw [hnone] at hactive
  cases hactive

end Dossh
