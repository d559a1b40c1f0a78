import Dossh.Render.Frame
import Dossh.Render.Midnight

/-!
# The cursor of the terminal

Every frame ends by parking the cursor of the terminal where the BIOS has it, shown or hidden as the
BIOS has it.  Between two frames `frame_decide` compares the place of the cursor with the one it
parked, and not whether the cursor is shown, so a static screen whose cursor is switched on or off
is idle.
-/

namespace Dossh

open Terminal

/-! ## Refills -/

namespace Render

variable (serial : Bool) (s : Screen) (r : Render)

/-- `render_next_byte` completes a frame. -/
def parks : Bool :=
  r.refills && (r.refilled serial s).frameActive && !(frameFill s (r.refilled serial s)).frameActive

variable {serial s r}

theorem pending_of_refills (h : r.refills = true) : r.pushed = none ∧ r.pending = [] := by
  rw [refills, Bool.and_eq_true, Option.isNone_iff_eq_none, Bool.not_eq_true',
    decide_eq_false_iff_not, Nat.not_lt] at h
  refine ⟨h.1, ?_⟩
  rw [pending, h.1, List.drop_eq_nil_of_le h.2]
  rfl

theorem renderNextByte_refills (h : r.refills = true) :
    renderNextByte serial s r = obufNext (renderRefill serial s r) := by
  rw [refills, Bool.and_eq_true, Option.isNone_iff_eq_none, Bool.not_eq_true',
    decide_eq_false_iff_not] at h
  rw [renderNextByte, h.1]
  exact if_neg h.2

/-- Without a refill the next pending byte is handed out. -/
theorem renderNextByte_hands (h : r.refills = false) :
    r.Pulls (renderNextByte serial s r).1 (renderNextByte serial s r).2 ∧
      (renderNextByte serial s r).1 ≠ none := by
  cases hp : r.pushed with
  | some b =>
      have heq : renderNextByte serial s r = (some b, { r with pushed := none }) := by
        rw [renderNextByte, hp]
      rw [heq]
      refine ⟨⟨⟨r.oOff, rfl⟩, ?_, fun hnone => by cases hnone⟩, fun hnone => by cases hnone⟩
      rw [pending, pending, hp]
      rfl
  | none =>
      have hlt : r.oOff < r.obuf.length := by
        rw [refills, hp] at h
        simpa using h
      have heq : renderNextByte serial s r = obufNext r := by
        rw [renderNextByte, hp]
        exact if_pos hlt
      rw [heq]
      refine ⟨obufNext_pulls hp, ?_⟩
      rw [obufNext, if_pos hlt, List.getElem?_eq_getElem hlt]
      exact fun hnone => by cases hnone

/-- The state after a call is that after the refill, if there is one, but for the output buffer. -/
theorem nextByte_state (serial : Bool) (s : Screen) (r : Render) :
    ∃ off, (renderNextByte serial s r).2 =
      { (if r.refills then renderRefill serial s r else r) with oOff := off, pushed := none } := by
  cases hr : r.refills with
  | false => exact (renderNextByte_hands hr).1.1
  | true =>
      rw [renderNextByte_refills hr, if_pos rfl]
      exact (obufNext_pulls ((renderRefill_same serial s r).2.trans (pending_of_refills hr).1)).1

theorem refilled_active (serial : Bool) (s : Screen) (h : r.frameActive = true) :
    r.refilled serial s = { r with obuf := [], oOff := 0 } := if_pos h

theorem refilled_idle (serial : Bool) (s : Screen) (h : r.frameActive = false) :
    r.refilled serial s = frameDecide serial s { r with obuf := [], oOff := 0 } :=
  if_neg (Bool.eq_false_iff.mp h)

/-- After a refill a frame is under way, or the renderer was between two frames and stays there. -/
theorem refilled_cases {t : Term} (h : MirrorInv t r) (serial : Bool) (s : Screen) :
    ((r.refilled serial s).frameActive = true ∧
        MirrorInv (t.feed (r.refilled serial s).obuf) (r.refilled serial s) ∧
        (r.refilled serial s).obuf.length + 23 ≤ OBUF) ∨
      r.frameActive = false ∧
        ∃ b, r.refilled serial s = { r with obuf := [], oOff := 0, isToobig := b } := by
  have h0 : MirrorInv t { r with obuf := [], oOff := 0 } := h.out [] 0 r.pushed
  by_cases hact : r.frameActive = true
  · rw [refilled_active serial s hact]
    exact .inl ⟨hact, h0, by simp [OBUF]⟩
  · have hidle : r.frameActive = false := Bool.eq_false_iff.mpr hact
    rw [refilled_idle serial s hidle]
    rcases frameDecide_cases serial s { r with obuf := [], oOff := 0 } with
      ⟨b, hsame, -⟩ | ⟨clear, repaint, b, heal, hstart, hbig, hsmall, hdiff⟩
    · exact .inr ⟨hidle, b, hsame⟩
    · rw [hstart]
      obtain ⟨hlen, -⟩ := feed_frameStart t s.geomCols s.geomRows clear repaint
        (r := { r with obuf := [], oOff := 0, isToobig := b, healKf := heal }) rfl
      exact .inl ⟨rfl, h0.frameStart s heal hidle rfl hbig hsmall hdiff, hlen⟩

/-- Filling never leaves the buffer empty. -/
theorem frameFill_ne_nil (s : Screen) (r : Render) : (frameFill s r).obuf ≠ [] := by
  obtain ⟨-, hends⟩ := fillLoop_ends s.base (r.totalCells - r.walkCell) r (by omega)
  unfold frameFill
  dsimp only
  generalize fillLoop s.base (r.totalCells - r.walkCell) r = r' at *
  split
  · rw [frameEnd_obuf]
    exact eS_ne_nil (.inl (List.cons_ne_nil _ _))
  next hmore =>
    rcases hends with hdone | hfull
    · exact absurd hdone hmore
    · intro hnil
      rw [hnil] at hfull
      exact absurd hfull (by decide)

/-- `-1` is returned by a refill between two frames that starts none. -/
theorem nextByte_eq_none_iff :
    (renderNextByte serial s r).1 = none ↔
      r.refills = true ∧ (r.refilled serial s).frameActive = false := by
  cases hr : r.refills with
  | false => exact iff_of_false (renderNextByte_hands hr).2 fun h => Bool.false_ne_true h.1
  | true =>
      rw [renderNextByte_refills hr, renderRefill_eq]
      cases hact : (r.refilled serial s).frameActive with
      | true =>
          have hoff : (frameFill s (r.refilled serial s)).oOff = 0 := by
            have := (renderRefill_same serial s r).1
            rwa [renderRefill_eq, if_pos hact] at this
          have hlt : 0 < (frameFill s (r.refilled serial s)).obuf.length :=
            List.length_pos_of_ne_nil (frameFill_ne_nil s _)
          rw [if_pos rfl, obufNext, hoff, if_pos hlt, List.getElem?_eq_getElem hlt]
          exact iff_of_false (fun h => by cases h) fun h => by cases h.2
      | false =>
          have hnil : (r.refilled serial s).obuf = [] := by
            unfold refilled at hact ⊢
            dsimp only at hact ⊢
            split
            · rfl
            next hidle =>
              rw [if_neg hidle] at hact
              rcases frameDecide_cases serial s { r with obuf := [], oOff := 0 } with
                ⟨b, heq, -⟩ | ⟨clear, repaint, b, heal, heq, -⟩
              · rw [heq]
              · rw [heq] at hact
                cases hact
          have hend : ¬ (r.refilled serial s).oOff < (r.refilled serial s).obuf.length := by
            rw [hnil]
            exact Nat.not_lt_zero _
          rw [if_neg Bool.false_ne_true, obufNext, if_neg hend]
          exact iff_of_true rfl ⟨rfl, rfl⟩

/-- What `frame_decide` has found when it sends nothing for a screen that fits the shadow. -/
theorem frameDecide_idle (hidle : (frameDecide serial s r).frameActive = false)
    (hsmall : s.geomCols * s.geomRows * 2 ≤ SHADOW_BYTES) :
    r.mustClear s = false ∧ r.settled s := by
  have hbig : s.toobig = false := decide_eq_false (Nat.not_lt.mpr hsmall)
  rw [frameDecide_eq, hbig, if_neg Bool.false_ne_true] at hidle
  split at hidle
  · cases hidle
  next hrep =>
    split at hidle
    next hsame =>
      rw [repaints, Bool.or_eq_true, not_or] at hrep
      exact ⟨Bool.eq_false_iff.mpr hrep.1, hsame⟩
    · cases hidle

end Render

/-! ## The parked cursor -/

/-- The cursor of the terminal was sent to a place, and shown or hidden.  The terminal keeps it on
its last line and column. -/
structure ParkedAt (t : Term) (row col : UInt8) (visible : Bool) : Prop where
  row_eq : t.row = min row.toNat (t.rows - 1)
  col_eq : t.col = min col.toNat (t.cols - 1)
  visible_eq : t.visible = visible

/-- The invariant of the cursor; `t` is the terminal once it has applied everything in the output
buffer, and `seen` is what `cursor_visible` said when the last frame was completed. -/
structure CursorInv (t : Term) (r : Render) (seen : Option Bool) : Prop where
  mirror : MirrorInv t r
  parked : r.frameActive = false → r.forceKf = false →
    r.shCols * r.shRows * 2 ≤ SHADOW_BYTES →
    ∃ v, seen = some v ∧ ParkedAt t r.lastCurR r.lastCurC v

namespace CursorInv

variable {t : Term} {r : Render} {seen : Option Bool}

theorem out (h : CursorInv t r seen) (o : List UInt8) (off : Nat) (b : Option UInt8) :
    CursorInv t { r with obuf := o, oOff := off, pushed := b } seen :=
  ⟨h.mirror.out o off b, h.parked⟩

/-- A frame that is completed parks the cursor. -/
theorem frameFill (h : MirrorInv (t.feed r.obuf) r) (s : Screen) (ha : r.frameActive = true)
    (hlen : r.obuf.length + 23 ≤ OBUF) :
    CursorInv (t.feed (frameFill s r).obuf) (frameFill s r)
      (if !(frameFill s r).frameActive then some s.cursorVisible else seen) := by
  obtain ⟨hmirror, -⟩ := h.frameFill s ha hlen
  refine ⟨hmirror, fun hidle _ hsmall => ⟨s.cursorVisible, by rw [hidle]; rfl, ?_⟩⟩
  obtain ⟨hsame, -⟩ := fillLoop_ends s.base (r.totalCells - r.walkCell) r (by omega)
  have hroom : r.isToobig = false →
      (fillLoop s.base (r.totalCells - r.walkCell) r).obuf.length + 23 ≤ OBUF :=
    fun hb => (Walk.fillLoop s.base t _ r hb (h.walk ha hb) hlen).2
  unfold Dossh.frameFill at hidle hsmall ⊢
  dsimp only at hidle hsmall ⊢
  generalize fillLoop s.base (r.totalCells - r.walkCell) r = r' at *
  split at hidle
  next hdone =>
    rw [if_pos hdone] at hsmall ⊢
    obtain ⟨-, kcols, krows, -⟩ := frameEnd_kept s r'
    have hb : r.isToobig = false := by
      rw [kcols, krows, hsame.shCols, hsame.shRows] at hsmall
      refine Bool.eq_false_iff.mpr fun hb => ?_
      have := h.big ha hb
      omega
    rw [frameEnd_feed s t (hroom hb)]
    exact ⟨rfl, rfl, rfl⟩
  next =>
    rw [hsame.active, ha] at hidle
    cases hidle

theorem refill (h : CursorInv t r seen) (serial : Bool) (s : Screen) (hr : r.refills = true) :
    CursorInv (t.feed (renderRefill serial s r).obuf) (renderRefill serial s r)
      (if r.parks serial s then some s.cursorVisible else seen) := by
  rw [Render.renderRefill_eq, Render.parks, hr, Bool.true_and]
  rcases Render.refilled_cases h.mirror serial s with ⟨hact, hmirror, hlen⟩ | ⟨hidle, b, heq⟩
  · rw [if_pos hact, hact, Bool.true_and]
    exact frameFill hmirror s hact hlen
  · have hquiet : (r.refilled serial s).frameActive = false := by rw [heq]; exact hidle
    rw [hquiet, Bool.false_and, if_neg Bool.false_ne_true, if_neg Bool.false_ne_true, heq]
    refine ⟨⟨h.mirror.idle, fun ha => ?_, fun ha => ?_⟩, h.parked⟩
    · exact absurd (hidle.symm.trans ha) Bool.false_ne_true
    · exact absurd (hidle.symm.trans ha) Bool.false_ne_true

theorem pulls (h : CursorInv (t.feed r.pending) r seen) {b : Option UInt8} {r' : Render}
    (hp : r.Pulls b r') :
    CursorInv (t.feed (b.toList ++ r'.pending)) r' seen ∧ r'.pushed = none := by
  obtain ⟨⟨off, heq⟩, hbytes, -⟩ := hp
  rw [hbytes, heq]
  exact ⟨h.out r.obuf off none, rfl⟩

/-- One call of `render_next_byte`. -/
theorem next (h : CursorInv (t.feed r.pending) r seen) (serial : Bool) (s : Screen) :
    CursorInv
        (t.feed ((renderNextByte serial s r).1.toList ++ (renderNextByte serial s r).2.pending))
        (renderNextByte serial s r).2 (if r.parks serial s then some s.cursorVisible else seen) ∧
      (renderNextByte serial s r).2.pushed = none := by
  cases hr : r.refills with
  | false =>
      have hno : r.parks serial s = false := by rw [Render.parks, hr]; rfl
      rw [hno, if_neg Bool.false_ne_true]
      exact h.pulls (Render.renderNextByte_hands hr).1
  | true =>
      obtain ⟨hpushed, hnil⟩ := Render.pending_of_refills hr
      rw [hnil, Term.feed_nil] at h
      have hfill := h.refill serial s hr
      rw [← renderRefill_pending serial s hnil] at hfill
      rw [Render.renderNextByte_refills hr]
      exact hfill.pulls (obufNext_pulls ((renderRefill_same serial s r).2.trans hpushed))

end CursorInv

/-! ## Runs -/

/-- What `cursor_visible` said when the last frame of a run was completed; `seen` is the answer
before the run. -/
def lastSeen : Option Bool → List Pull → Render × Term → Option Bool
  | seen, [], _ => seen
  | seen, p :: pulls, st =>
      lastSeen (if st.1.parks p.serial p.screen then some p.screen.cursorVisible else seen) pulls
        (p.run st)

/-- A byte that is taken is applied, and one that is refused stays pending. -/
theorem Pull.run_cursor {st : Render × Term} {seen : Option Bool}
    (h : CursorInv (st.2.feed st.1.pending) st.1 seen) (p : Pull) :
    CursorInv ((p.run st).2.feed (p.run st).1.pending) (p.run st).1
      (if st.1.parks p.serial p.screen then some p.screen.cursorVisible else seen) := by
  obtain ⟨hnext, hpushed⟩ := h.next p.serial p.screen
  unfold Pull.run
  generalize renderNextByte p.serial p.screen st.1 = res at *
  obtain ⟨b, r⟩ := res
  cases b with
  | none => exact hnext
  | some b =>
      dsimp only at hnext hpushed ⊢
      rw [Option.toList_some, List.singleton_append] at hnext
      split
      · exact hnext
      · have hpend : (renderPushback b r).pending = b :: r.pending := by
          rw [Render.pending, Render.pending, hpushed]
          rfl
        rw [hpend]
        exact hnext.out r.obuf r.oOff (some b)

theorem pullAll_cursor : ∀ (pulls : List Pull) (st : Render × Term) (seen : Option Bool),
    CursorInv (st.2.feed st.1.pending) st.1 seen →
      CursorInv ((pullAll pulls st).2.feed (pullAll pulls st).1.pending) (pullAll pulls st).1
        (lastSeen seen pulls st)
  | [], _, _, h => h
  | p :: pulls, _, _, h => pullAll_cursor pulls _ _ (Pull.run_cursor h p)

/-- A call that returns `-1` for a screen that fits the shadow finds the cursor where it was
parked. -/
theorem CursorInv.quiet {t : Term} {r r' : Render} {seen : Option Bool} {serial : Bool} {s : Screen}
    (h : CursorInv (t.feed r.pending) r seen)
    (hsmall : s.geomCols * s.geomRows * 2 ≤ SHADOW_BYTES)
    (hnone : renderNextByte serial s r = (none, r')) :
    ∃ v, seen = some v ∧ ParkedAt t s.cursorRow s.cursorCol v := by
  obtain ⟨hr, hquiet⟩ := Render.nextByte_eq_none_iff.mp (congrArg Prod.fst hnone)
  obtain ⟨-, hnil⟩ := Render.pending_of_refills hr
  rw [hnil, Term.feed_nil] at h
  have hidle : r.frameActive = false := by
    refine Bool.eq_false_iff.mpr fun hact => ?_
    rw [Render.refilled_active serial s hact] at hquiet
    exact Bool.false_ne_true (hquiet.symm.trans hact)
  rw [Render.refilled_idle serial s hidle] at hquiet
  obtain ⟨hclear, -, hrow, hcol⟩ := Render.frameDecide_idle hquiet hsmall
  have hkeeps : r.mustClear s = false := hclear
  simp only [Render.mustClear, Bool.or_eq_false_iff, Bool.not_eq_false',
    decide_eq_false_iff_not, ne_eq, not_not] at hkeeps
  obtain ⟨⟨⟨hforce, -⟩, hcols⟩, hrows⟩ := hkeeps
  rw [hcols, hrows] at hsmall
  rw [show s.cursorRow = r.lastCurR from hrow, show s.cursorCol = r.lastCurC from hcol]
  exact h.parked hidle hforce hsmall

/-- The cursor of the terminal is where the BIOS has it, and shown or hidden as `cursor_visible`
says. -/
def CursorShown (t : Term) (s : Screen) : Prop :=
  t.row = s.cursorRow.toNat ∧ t.col = s.cursorCol.toNat ∧ t.visible = s.cursorVisible

/-- **The cursor mirror.**  Whenever `render_next_byte` returns `-1` after `render_reset` and any
sequence of pulls, the cursor of the terminal is that of the BIOS exactly if the place is one the
terminal has and `cursor_visible` says what it said when the last frame was completed.  The call
that returns `-1` has made the last `frame_decide` itself. -/
theorem cursor_mirrored_iff (r0 : Render) (t0 : Term) (now : BitVec 32) (pulls : List Pull)
    (serial : Bool) (s : Screen) (r' : Render)
    (hsmall : s.geomCols * s.geomRows * 2 ≤ SHADOW_BYTES)
    (hnone : renderNextByte serial s (pullAll pulls (renderReset now r0, t0)).1 = (none, r')) :
    CursorShown (pullAll pulls (renderReset now r0, t0)).2 s ↔
      s.cursorRow.toNat ≤ (pullAll pulls (renderReset now r0, t0)).2.rows - 1 ∧
        s.cursorCol.toNat ≤ (pullAll pulls (renderReset now r0, t0)).2.cols - 1 ∧
        lastSeen none pulls (renderReset now r0, t0) = some s.cursorVisible := by
  have hreset : CursorInv (t0.feed (renderReset now r0).pending) (renderReset now r0) none :=
    ⟨⟨(fun _ hv => by cases hv), (fun ha => by cases ha), (fun ha => by cases ha)⟩,
      (fun _ hf => by cases hf)⟩
  have hinv := pullAll_cursor pulls (renderReset now r0, t0) none hreset
  obtain ⟨v, hseen, hrow, hcol, hvisible⟩ := hinv.quiet hsmall hnone
  rw [CursorShown, hrow, hcol, hvisible, hseen, min_eq_left_iff, min_eq_left_iff,
    Option.some.injEq]

/-- The transport refuses one byte, takes the others, and the cursor is shown in its place. -/
theorem cursor_mirrored_iff_tiny :
    (renderNextByte false tinyScreen
      (pullAll tinyPulls (renderReset 5 coldRender, garbledTerm)).1).1 = none ∧
    CursorShown (pullAll tinyPulls (renderReset 5 coldRender, garbledTerm)).2 tinyScreen := by
  have hnone : (renderNextByte false tinyScreen
      (pullAll tinyPulls (renderReset 5 coldRender, garbledTerm)).1).1 = none := by
    decide +kernel
  have hpair : ∀ res : Option UInt8 × Render, res.1 = none → res = (none, res.2) := by
    rintro ⟨_, _⟩ rfl
    rfl
  refine ⟨hnone, (cursor_mirrored_iff coldRender garbledTerm 5 tinyPulls false tinyScreen _
    (by decide) (hpair _ hnone)).mpr ⟨?_, ?_, ?_⟩⟩
  · decide +kernel
  · decide +kernel
  · decide +kernel

/-- The screen with the cursor switched off. -/
def hiddenScreen : Screen := { tinyScreen with cursorStart := 0x20 }

/-- The cursor is switched off after a complete frame.  From then on the screen stays as it is, and
`-1` is returned while the terminal still shows the cursor. -/
theorem cursor_switch_unsent :
    let before := pullAll tinyPulls (renderReset 5 coldRender, garbledTerm)
    let after := pullAll (tinyPulls ++ [⟨false, hiddenScreen, true⟩])
      (renderReset 5 coldRender, garbledTerm)
    (renderNextByte false hiddenScreen before.1).1 = none ∧
      (renderNextByte false hiddenScreen after.1).1 = none ∧
      after.2.visible = true ∧ hiddenScreen.cursorVisible = false ∧
      ¬ CursorShown after.2 hiddenScreen := by
  have hshown : (pullAll (tinyPulls ++ [⟨false, hiddenScreen, true⟩])
      (renderReset 5 coldRender, garbledTerm)).2.visible = true := by
    decide +kernel
  have hoff : hiddenScreen.cursorVisible = false := by decide
  refine ⟨by decide +kernel, by decide +kernel, hshown, hoff, fun h => ?_⟩
  rw [CursorShown, hshown, hoff] at h
  exact Bool.false_ne_true h.2.2.symm

end Dossh
