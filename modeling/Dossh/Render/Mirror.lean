import Dossh.Render.Ansi

/-!
# The terminal mirrors the screen

A terminal that has applied the bytes the renderer handed out, and then those
still in the output buffer, shows the shadow.  `Walk` is the invariant inside a
frame: which cells it has painted, where the cursor stands after the last painted
cell, and which rendition is selected.  `MirrorInv` adds what holds between frames.

A frame starts with ESC, so it does not matter where the parser of the terminal
stood before it, and a frame that clears or repaints does not rely on what the
grid showed.
-/

namespace Dossh

open Terminal

/-! ## What the terminal shows -/

/-- The terminal shows the glyph and the rendition of cell `c` of `mem`, on lines of
`cols` cells. -/
def ShowsCell (t : Term) (mem : Nat → UInt8) (cols c : Nat) : Prop :=
  t.grid (c / cols) (c % cols) = ⟨glyphOf (mem (c * 2)), sgrOf (mem (c * 2 + 1))⟩

/-- The terminal shows the first `k` cells of `mem`. -/
def Mirrors (t : Term) (mem : Nat → UInt8) (cols k : Nat) : Prop := ∀ c < k, ShowsCell t mem cols c

/-- The terminal is at least as large as the screen. -/
def Fits (t : Term) (cols rows : Nat) : Prop := cols ≤ t.cols ∧ rows ≤ t.rows

/-- Cells of a line-by-line layout are told apart by line and column. -/
theorem cell_ne {cols c c' : Nat} (h : c' ≠ c) : ¬ (c' / cols = c / cols ∧ c' % cols = c % cols) := by
  rintro ⟨hd, hm⟩
  apply h
  rw [← Nat.div_add_mod c' cols, ← Nat.div_add_mod c cols, hd, hm]

/-- Writing at the place of cell `c` shows it and leaves the other cells. -/
theorem put_cell {t : Term} {cols rows c : Nat} {attr : UInt8} (ch : UInt8) (hw : t.wrap = false)
    (hrow : t.row = c / cols) (hcol : t.col = c % cols) (hsgr : t.sgr = sgrOf attr)
    (hfit : Fits t cols rows) (hc : c < cols * rows) :
    (t.put (glyphOf ch)).grid (c / cols) (c % cols) = ⟨glyphOf ch, sgrOf attr⟩ ∧
      ∀ c', c' ≠ c →
        (t.put (glyphOf ch)).grid (c' / cols) (c' % cols) = t.grid (c' / cols) (c' % cols) := by
  have hpos : 0 < cols := by
    rcases Nat.eq_zero_or_pos cols with h0 | h0
    · rw [h0, Nat.zero_mul] at hc
      omega
    · exact h0
  have hlt : c / cols < rows := Nat.div_lt_of_lt_mul hc
  have hmod : c % cols < cols := Nat.mod_lt _ hpos
  have hin : c / cols < t.rows ∧ c % cols < t.cols :=
    ⟨Nat.lt_of_lt_of_le hlt hfit.2, Nat.lt_of_lt_of_le hmod hfit.1⟩
  rw [Term.put_eq _ hw]
  refine ⟨?_, fun c' hne => ?_⟩
  · show (if _ then _ else _) = _
    rw [if_pos ⟨hrow.symm, hcol.symm, hin⟩, hsgr]
  · show (if _ then _ else _) = _
    rw [if_neg]
    rintro ⟨h1, h2, _⟩
    exact cell_ne hne ⟨h1.trans hrow, h2.trans hcol⟩

/-! ## Inside a frame -/

/-- The invariant of a frame whose cells the shadow keeps; `t` is the terminal once
it has applied everything in the output buffer. -/
structure Walk (t : Term) (r : Render) : Prop where
  ground : t.parser = .ground
  wrap : t.wrap = false
  cols_eq : r.fCols = r.shCols
  total_eq : r.totalCells = r.shCols * r.shRows
  small : r.totalCells * 2 ≤ SHADOW_BYTES
  cols_pos : 0 < r.fCols
  cols_le : r.fCols ≤ 132
  rows_le : r.shRows ≤ 60
  sgr : ∀ a : UInt8, r.curSgr = a.toNat → t.sgr = sgrOf a
  cursor : Fits t r.shCols r.shRows → ∀ c : Nat, (c : Int) = r.lastEmit + 1 → c % r.fCols ≠ 0 →
    t.row = c / r.fCols ∧ t.col = c % r.fCols
  cells : Fits t r.shCols r.shRows →
    Mirrors t r.shadow r.fCols (if r.isRepaint then r.walkCell else r.totalCells)

/-- The line and the column of a cell have three digits at most. -/
theorem cell_le {cols rows c : Nat} (hpos : 0 < cols) (hcols : cols ≤ 132) (hrows : rows ≤ 60)
    (hc : c < cols * rows) : c / cols ≤ 255 ∧ c % cols ≤ 255 := by
  have hrow : c / cols < rows := Nat.div_lt_of_lt_mul hc
  have hcol : c % cols < cols := Nat.mod_lt _ hpos
  omega

/-- The bytes one changed cell adds. -/
def cellBytes (v : Nat → UInt8) (r : Render) : List UInt8 :=
  (if (r.walkCell : Int) ≠ r.lastEmit + 1 ∨ r.walkCell % r.fCols = 0 then
      cupBytes (r.walkCell / r.fCols) (r.walkCell % r.fCols) else []) ++
    (if ((v (r.walkCell * 2 + 1)).toNat : Int) ≠ r.curSgr then sgrBytes (v (r.walkCell * 2 + 1))
      else []) ++
    charBytes (v (r.walkCell * 2))

/-- A cell is sent in this frame. -/
def cellSent (v : Nat → UInt8) (r : Render) : Bool :=
  r.isRepaint || r.isToobig || cellChanged v r.shadow r.walkCell

theorem Emits.ite {p : Prop} [Decidable p] {f : List UInt8 → List UInt8} {bs : List UInt8}
    (hf : Emits f bs) : Emits (fun o => if p then f o else o) (if p then bs else []) := by
  split
  · exact hf
  · intro o _
    exact (List.append_nil o).symm

theorem cellBytes_length {v : Nat → UInt8} {r : Render} (hrow : r.walkCell / r.fCols ≤ 255)
    (hcol : r.walkCell % r.fCols ≤ 255) : (cellBytes v r).length ≤ 25 := by
  have h1 := cupBytes_length hrow hcol
  have h2 := (attr_spec (v (r.walkCell * 2 + 1))).2.2.1
  have h3 := (attr_spec (v (r.walkCell * 2))).2.2.2.1
  have hite : ∀ (p : Prop) [Decidable p] (bs : List UInt8),
      (if p then bs else []).length ≤ bs.length := by
    intro p _ bs
    split <;> simp
  have h4 := hite ((r.walkCell : Int) ≠ r.lastEmit + 1 ∨ r.walkCell % r.fCols = 0)
    (cupBytes (r.walkCell / r.fCols) (r.walkCell % r.fCols))
  have h5 := hite (((v (r.walkCell * 2 + 1)).toNat : Int) ≠ r.curSgr)
    (sgrBytes (v (r.walkCell * 2 + 1)))
  rw [cellBytes, List.length_append, List.length_append]
  omega

/-- A sent cell appends its bytes. -/
theorem fillCell_obuf {v : Nat → UInt8} {r : Render} (hsent : cellSent v r = true)
    (hlen : r.obuf.length + (cellBytes v r).length ≤ OBUF) :
    (fillCell v r).obuf = r.obuf ++ cellBytes v r := by
  have hcup := Emits.ite (p := (r.walkCell : Int) ≠ r.lastEmit + 1 ∨ r.walkCell % r.fCols = 0)
    (eCup_emits (r.walkCell / r.fCols) (r.walkCell % r.fCols))
  have hsgr := Emits.ite (p := ((v (r.walkCell * 2 + 1)).toNat : Int) ≠ r.curSgr)
    (eSgr_emits (v (r.walkCell * 2 + 1)))
  have h := ((hcup.comp hsgr).comp (eS_emits (charBytes (v (r.walkCell * 2))))) r.obuf hlen
  rw [cellSent] at hsent
  rw [fillCell, if_pos hsent]
  exact h

/-- The terminal after the bytes of a sent cell: the cursor stood at the cell and
the rendition was the cell's when the glyph was written. -/
theorem feed_cell {t : Term} {r : Render} (h : Walk t r) (v : Nat → UInt8)
    (hc : r.walkCell < r.totalCells) :
    ∃ t1 : Term, t.feed (cellBytes v r) = t1.put (glyphOf (v (r.walkCell * 2))) ∧
      t1.parser = .ground ∧ t1.wrap = false ∧ t1.sgr = sgrOf (v (r.walkCell * 2 + 1)) ∧
      t1.rows = t.rows ∧ t1.cols = t.cols ∧ t1.grid = t.grid ∧
      (Fits t r.shCols r.shRows →
        t1.row = r.walkCell / r.fCols ∧ t1.col = r.walkCell % r.fCols) := by
  have hrow : r.walkCell / r.fCols < r.shRows := by
    apply Nat.div_lt_of_lt_mul
    rw [h.cols_eq, ← h.total_eq]
    exact hc
  have hcol : r.walkCell % r.fCols < r.fCols := Nat.mod_lt _ h.cols_pos
  have hrows := h.rows_le
  have hcols := h.cols_le
  -- the move, which may have been left out
  obtain ⟨t0, hfeed0, hp0, hw0, hs0, hr0, hc0, hg0, hcur0⟩ : ∃ t0 : Term,
      t.feed (if (r.walkCell : Int) ≠ r.lastEmit + 1 ∨ r.walkCell % r.fCols = 0 then
        cupBytes (r.walkCell / r.fCols) (r.walkCell % r.fCols) else []) = t0 ∧
      t0.parser = .ground ∧ t0.wrap = false ∧ t0.sgr = t.sgr ∧ t0.rows = t.rows ∧
      t0.cols = t.cols ∧ t0.grid = t.grid ∧ (Fits t r.shCols r.shRows →
        t0.row = r.walkCell / r.fCols ∧ t0.col = r.walkCell % r.fCols) := by
    refine ⟨_, rfl, ?_⟩
    split
    next =>
      rw [feed_cup t (by omega) (by omega)]
      refine ⟨rfl, h.wrap, rfl, rfl, rfl, rfl, fun hfit => ?_⟩
      obtain ⟨f1, f2⟩ := hfit
      rw [← h.cols_eq] at f1
      exact ⟨Nat.min_eq_left (by omega), Nat.min_eq_left (by omega)⟩
    next hno =>
      rw [not_or, not_not] at hno
      exact ⟨h.ground, h.wrap, rfl, rfl, rfl, rfl, fun hfit => h.cursor hfit _ hno.1 hno.2⟩
  -- the rendition, which may have been left out
  obtain ⟨t1, hfeed1, hp1, hw1, hs1, hr1, hc1, hg1, hcur1⟩ : ∃ t1 : Term,
      t0.feed (if ((v (r.walkCell * 2 + 1)).toNat : Int) ≠ r.curSgr then
        sgrBytes (v (r.walkCell * 2 + 1)) else []) = t1 ∧
      t1.parser = .ground ∧ t1.wrap = false ∧ t1.sgr = sgrOf (v (r.walkCell * 2 + 1)) ∧
      t1.rows = t0.rows ∧ t1.cols = t0.cols ∧ t1.grid = t0.grid ∧
      (t1.row = t0.row ∧ t1.col = t0.col) := by
    refine ⟨_, rfl, ?_⟩
    split
    next =>
      rw [feed_sgr]
      exact ⟨rfl, hw0, rfl, rfl, rfl, rfl, rfl, rfl⟩
    next hno =>
      rw [not_not] at hno
      exact ⟨hp0, hw0, hs0.trans (h.sgr _ hno.symm), rfl, rfl, rfl, rfl, rfl⟩
  refine ⟨t1, ?_, hp1, hw1, hs1, hr1.trans hr0, hc1.trans hc0, hg1.trans hg0, fun hfit => ?_⟩
  · rw [cellBytes, Term.feed_append, Term.feed_append, hfeed0, hfeed1, feed_char hp1]
  · rw [hcur1.1, hcur1.2]
    exact hcur0 hfit

theorem Walk.cellBytes_length {t : Term} {r : Render} (h : Walk t r) (v : Nat → UInt8)
    (hc : r.walkCell < r.totalCells) : (cellBytes v r).length ≤ 25 := by
  rw [h.total_eq, ← h.cols_eq] at hc
  obtain ⟨hrow, hcol⟩ := cell_le h.cols_pos h.cols_le h.rows_le hc
  exact Dossh.cellBytes_length hrow hcol

/-- The next cell stands to the right unless it starts a line. -/
theorem succ_cell {cols c : Nat} (hpos : 0 < cols) (h : (c + 1) % cols ≠ 0) :
    (c + 1) / cols = c / cols ∧ (c + 1) % cols = c % cols + 1 := by
  have hlt := Nat.mod_lt c hpos
  have hc : c + 1 = cols * (c / cols) + (c % cols + 1) := by
    rw [← Nat.add_assoc, Nat.div_add_mod]
  rcases Nat.lt_or_ge (c % cols + 1) cols with hl | hg
  · constructor
    · rw [hc, Nat.mul_add_div hpos, Nat.div_eq_of_lt hl, Nat.add_zero]
    · rw [hc, Nat.mul_add_mod, Nat.mod_eq_of_lt hl]
  · have hend : c % cols + 1 = cols := by omega
    rw [hc, hend, Nat.mul_add_mod, Nat.mod_self] at h
    exact absurd rfl h

/-- A cell that is not sent already shows. -/
theorem Walk.skip {t : Term} {r : Render} (h : Walk t r) {v : Nat → UInt8}
    (hno : ¬ cellSent v r = true) : fillCell v r = { r with walkCell := r.walkCell + 1 } ∧
      Walk t { r with walkCell := r.walkCell + 1 } := by
  rw [cellSent, Bool.or_eq_true, Bool.or_eq_true] at hno
  push Not at hno
  have hrep : r.isRepaint = false := Bool.eq_false_iff.mpr hno.1.1
  refine ⟨?_, h.ground, h.wrap, h.cols_eq, h.total_eq, h.small, h.cols_pos, h.cols_le, h.rows_le,
    h.sgr, h.cursor, fun hfit => ?_⟩
  · rw [fillCell, if_neg (by rw [Bool.or_eq_true, Bool.or_eq_true]; push Not; exact hno)]
  · have hcells := h.cells hfit
    rw [hrep] at hcells ⊢
    exact hcells

/-- A sent cell shows afterwards, and the ones that showed still do. -/
theorem Walk.send {t : Term} {r : Render} (h : Walk t r) (hbig : r.isToobig = false)
    {v : Nat → UInt8} (hsent : cellSent v r = true) (hc : r.walkCell < r.totalCells) :
    Walk (t.feed (cellBytes v r)) (fillCell v r) := by
  obtain ⟨t1, hfeed, _, hw1, hs1, hr1, hc1, hg1, hcur1⟩ := feed_cell h v hc
  have hput := Term.put_eq (glyphOf (v (r.walkCell * 2))) hw1
  rw [cellSent] at hsent
  rw [hfeed, fillCell, if_pos hsent]
  refine ⟨by rw [hput], by rw [hput]; exact hw1, h.cols_eq, h.total_eq, h.small, h.cols_pos,
    h.cols_le, h.rows_le, fun a ha => ?_, fun hfit c hcc hmod => ?_, fun hfit => ?_⟩
  · rw [hput]
    show t1.sgr = sgrOf a
    have hval : (v (r.walkCell * 2 + 1)).toNat = a.toNat := by
      have : ((v (r.walkCell * 2 + 1)).toNat : Int) = a.toNat := ha
      omega
    rw [hs1, UInt8.toNat_inj.mp hval]
  · have hfit0 : Fits t r.shCols r.shRows := by
      rw [Fits, hput] at hfit
      exact ⟨hc1 ▸ hfit.1, hr1 ▸ hfit.2⟩
    obtain ⟨hrow, hcol⟩ := hcur1 hfit0
    have hnext : c = r.walkCell + 1 := by
      have : (c : Int) = (r.walkCell : Int) + 1 := hcc
      omega
    subst hnext
    obtain ⟨hd, hm⟩ := succ_cell h.cols_pos hmod
    have hlt : r.walkCell % r.fCols + 1 < t1.cols := by
      have := Nat.mod_lt (r.walkCell + 1) h.cols_pos
      have hle := hfit0.1
      rw [← h.cols_eq] at hle
      omega
    rw [hput]
    show t1.row = _ ∧ (if t1.col + 1 < t1.cols then t1.col + 1 else t1.col) = _
    rw [hrow, hcol, if_pos hlt]
    exact ⟨hd.symm, hm.symm⟩
  · have hfit0 : Fits t r.shCols r.shRows := by
      rw [Fits, hput] at hfit
      exact ⟨hc1 ▸ hfit.1, hr1 ▸ hfit.2⟩
    have hfit1 : Fits t1 r.fCols r.shRows := by
      rw [Fits, hr1, hc1, h.cols_eq]
      exact hfit0
    obtain ⟨hrow, hcol⟩ := hcur1 hfit0
    have hlt : r.walkCell < r.fCols * r.shRows := by
      rw [h.cols_eq, ← h.total_eq]
      exact hc
    obtain ⟨hself, hother⟩ := put_cell (v (r.walkCell * 2)) hw1 hrow hcol hs1 hfit1 hlt
    rw [hbig]
    intro c hcm
    unfold ShowsCell
    simp only [Bool.false_eq_true, if_false]
    by_cases hcw : c = r.walkCell
    · subst hcw
      rw [hself, Function.update_self, Function.update_of_ne (by omega), Function.update_self]
    · have hold : c < if r.isRepaint then r.walkCell else r.totalCells := by
        have hcm' : c < if r.isRepaint then r.walkCell + 1 else r.totalCells := hcm
        cases hrep : r.isRepaint with
        | true =>
            rw [hrep, if_pos rfl] at hcm'
            rw [if_pos rfl]
            omega
        | false =>
            rw [hrep, if_neg (by decide)] at hcm'
            exact hcm'
      rw [hother c hcw, hg1, Function.update_of_ne (by omega), Function.update_of_ne (by omega),
        Function.update_of_ne (by omega), Function.update_of_ne (by omega)]
      exact h.cells hfit0 c hold

/-- What the loop of `frame_fill` leaves alone. -/
structure Render.SameFrame (r r' : Render) : Prop where
  active : r'.frameActive = r.frameActive
  toobig : r'.isToobig = r.isToobig
  total : r'.totalCells = r.totalCells
  shCols : r'.shCols = r.shCols
  shRows : r'.shRows = r.shRows
  oOff : r'.oOff = r.oOff
  pushed : r'.pushed = r.pushed

theorem Render.SameFrame.trans {r r' r'' : Render} (h : r.SameFrame r') (h' : r'.SameFrame r'') :
    r.SameFrame r'' :=
  ⟨h'.active.trans h.active, h'.toobig.trans h.toobig, h'.total.trans h.total,
    h'.shCols.trans h.shCols, h'.shRows.trans h.shRows, h'.oOff.trans h.oOff,
    h'.pushed.trans h.pushed⟩

theorem fillCell_same (v : Nat → UInt8) (r : Render) :
    r.SameFrame (fillCell v r) ∧ (fillCell v r).walkCell = r.walkCell + 1 := by
  unfold fillCell
  dsimp only
  split
  · exact ⟨⟨rfl, rfl, rfl, rfl, rfl, rfl, rfl⟩, rfl⟩
  · exact ⟨⟨rfl, rfl, rfl, rfl, rfl, rfl, rfl⟩, rfl⟩

/-- The loop ends at the last cell or with the buffer nearly full. -/
theorem fillLoop_ends (v : Nat → UInt8) :
    ∀ (fuel : Nat) (r : Render), r.totalCells ≤ r.walkCell + fuel →
      r.SameFrame (fillLoop v fuel r) ∧
        ((fillLoop v fuel r).totalCells ≤ (fillLoop v fuel r).walkCell ∨
          OBUF < (fillLoop v fuel r).obuf.length + 48)
  | 0, r, h => ⟨⟨rfl, rfl, rfl, rfl, rfl, rfl, rfl⟩, .inl h⟩
  | fuel + 1, r, h => by
      rw [fillLoop]
      split
      · split
        next hfull => exact ⟨⟨rfl, rfl, rfl, rfl, rfl, rfl, rfl⟩, .inr hfull⟩
        next =>
          obtain ⟨hsame, hwalk⟩ := fillCell_same v r
          have ih := fillLoop_ends v fuel (fillCell v r) (by rw [hsame.total, hwalk]; omega)
          exact ⟨hsame.trans ih.1, ih.2⟩
      next hend => exact ⟨⟨rfl, rfl, rfl, rfl, rfl, rfl, rfl⟩, .inl (Nat.not_lt.mp hend)⟩

/-- The loop keeps the invariant and leaves room for the end of the frame. -/
theorem Walk.fillLoop (v : Nat → UInt8) (t : Term) :
    ∀ (fuel : Nat) (r : Render), r.isToobig = false → Walk (t.feed r.obuf) r →
      r.obuf.length + 23 ≤ OBUF →
      Walk (t.feed (Dossh.fillLoop v fuel r).obuf) (Dossh.fillLoop v fuel r) ∧
        (Dossh.fillLoop v fuel r).obuf.length + 23 ≤ OBUF
  | 0, _, _, h, hlen => ⟨h, hlen⟩
  | fuel + 1, r, hbig, h, hlen => by
      rw [Dossh.fillLoop]
      split
      next hc =>
        split
        · exact ⟨h, hlen⟩
        next hroom =>
          refine Walk.fillLoop v t fuel (fillCell v r) ?_ ?_ ?_
          · rw [(fillCell_same v r).1.toobig, hbig]
          · by_cases hsent : cellSent v r = true
            · rw [fillCell_obuf hsent (by have := h.cellBytes_length v hc; omega),
                Term.feed_append]
              exact h.send hbig hsent hc
            · obtain ⟨heq, hw⟩ := h.skip hsent
              rw [heq]
              exact hw
          · by_cases hsent : cellSent v r = true
            · have hle := h.cellBytes_length v hc
              rw [fillCell_obuf hsent (by omega), List.length_append]
              omega
            · rw [(h.skip hsent).1]
              exact hlen
      next => exact ⟨h, hlen⟩

/-! ## Frames -/

/-- The invariant of the renderer; `t` is the terminal once it has applied
everything in the output buffer. -/
structure MirrorInv (t : Term) (r : Render) : Prop where
  idle : r.frameActive = false → r.shadowValid = true → r.forceKf = false →
    r.shCols * r.shRows * 2 ≤ SHADOW_BYTES → Fits t r.shCols r.shRows →
    Mirrors t r.shadow r.shCols (r.shCols * r.shRows)
  walk : r.frameActive = true → r.isToobig = false → Walk t r
  big : r.frameActive = true → r.isToobig = true → SHADOW_BYTES < r.shCols * r.shRows * 2

/-- The output buffer itself is not part of the invariant. -/
theorem MirrorInv.out {t : Term} {r : Render} (h : MirrorInv t r) (o : List UInt8) (off : Nat)
    (b : Option UInt8) : MirrorInv t { r with obuf := o, oOff := off, pushed := b } :=
  ⟨h.idle, fun ha hb =>
    let w := h.walk ha hb
    ⟨w.ground, w.wrap, w.cols_eq, w.total_eq, w.small, w.cols_pos, w.cols_le, w.rows_le, w.sgr,
      w.cursor, w.cells⟩, h.big⟩

/-- A helper that has something to append does not leave the buffer empty. -/
theorem eS_ne_nil : ∀ {s o : List UInt8}, s ≠ [] ∨ o ≠ [] → eS o s ≠ []
  | [], o, h => by
      rcases h with h | h
      · exact absurd rfl h
      · exact h
  | c :: s, o, _ => by
      refine eS_ne_nil (s := s) (o := eB o c) (.inr ?_)
      unfold eB
      split
      · simp
      next hfull =>
        rintro rfl
        exact hfull (by decide)

/-- What the end of a frame leaves. -/
theorem frameEnd_kept (s : Screen) (r : Render) :
    (frameEnd s r).frameActive = false ∧ (frameEnd s r).shCols = r.shCols ∧
      (frameEnd s r).shRows = r.shRows ∧ (frameEnd s r).shadow = r.shadow ∧
      (frameEnd s r).oOff = r.oOff ∧ (frameEnd s r).pushed = r.pushed :=
  ⟨rfl, rfl, rfl, rfl, rfl, rfl⟩

theorem frameEnd_obuf (s : Screen) (r : Render) : (frameEnd s r).obuf =
    eS (eCup r.obuf s.cursorRow.toNat s.cursorCol.toNat)
      [0x1B, 0x5B, 0x3F, 0x32, 0x35, if s.cursorVisible then 0x68 else 0x6C] := by
  show (if s.cursorVisible then eS _ _ else eS _ _) = _
  cases s.cursorVisible with
  | true => rw [if_pos rfl, if_pos rfl]
  | false => rw [if_neg (by decide), if_neg (by decide)]

/-- The end of a frame parks the cursor and changes no cell. -/
theorem frameEnd_feed (s : Screen) (t : Term) {r : Render} (hlen : r.obuf.length + 23 ≤ OBUF) :
    t.feed (frameEnd s r).obuf = { t.feed r.obuf with
      parser := .ground, visible := s.cursorVisible
      row := min s.cursorRow.toNat ((t.feed r.obuf).rows - 1)
      col := min s.cursorCol.toNat ((t.feed r.obuf).cols - 1) } := by
  have hr := byte_le s.cursorRow
  have hc := byte_le s.cursorCol
  have hcup := cupBytes_length hr hc
  have hobuf : (frameEnd s r).obuf = r.obuf ++ (cupBytes s.cursorRow.toNat s.cursorCol.toNat ++
      [0x1B, 0x5B, 0x3F, 0x32, 0x35, if s.cursorVisible then 0x68 else 0x6C]) := by
    have hemit : eS (eCup r.obuf s.cursorRow.toNat s.cursorCol.toNat)
        [0x1B, 0x5B, 0x3F, 0x32, 0x35, if s.cursorVisible then 0x68 else 0x6C] = _ :=
      ((eCup_emits s.cursorRow.toNat s.cursorCol.toNat).comp (eS_emits _)) r.obuf (by simp; omega)
    rw [← hemit, frameEnd_obuf]
  rw [hobuf, Term.feed_append, Term.feed_append, feed_cup _ hr hc, feed_cursor]

/-- Filling keeps the invariant and never leaves the buffer empty. -/
theorem MirrorInv.frameFill {t : Term} {r : Render} (h : MirrorInv (t.feed r.obuf) r)
    (s : Screen) (ha : r.frameActive = true) (hlen : r.obuf.length + 23 ≤ OBUF) :
    MirrorInv (t.feed (frameFill s r).obuf) (frameFill s r) ∧ (frameFill s r).obuf ≠ [] ∧
      (frameFill s r).oOff = r.oOff ∧ (frameFill s r).pushed = r.pushed := by
  obtain ⟨hsame, hends⟩ := fillLoop_ends s.base (r.totalCells - r.walkCell) r (by omega)
  have hwalk : r.isToobig = false →
      Walk (t.feed (fillLoop s.base (r.totalCells - r.walkCell) r).obuf)
        (fillLoop s.base (r.totalCells - r.walkCell) r) ∧
      (fillLoop s.base (r.totalCells - r.walkCell) r).obuf.length + 23 ≤ OBUF :=
    fun hb => Walk.fillLoop s.base t _ r hb (h.walk ha hb) hlen
  unfold Dossh.frameFill
  dsimp only
  generalize fillLoop s.base (r.totalCells - r.walkCell) r = r' at *
  have hbig' : r.isToobig = true → SHADOW_BYTES < r'.shCols * r'.shRows * 2 := by
    intro hb
    rw [hsame.shCols, hsame.shRows]
    exact h.big ha hb
  split
  next hdone =>
    obtain ⟨kact, kcols, krows, kshadow, koff, kpushed⟩ := frameEnd_kept s r'
    refine ⟨⟨fun _ _ _ hsm hfit => ?_, fun hact => ?_, fun hact => ?_⟩, ?_,
      koff.trans hsame.oOff, kpushed.trans hsame.pushed⟩
    · rw [kcols, krows] at hsm hfit ⊢
      cases hb : r.isToobig with
      | true =>
          have := hbig' hb
          omega
      | false =>
          obtain ⟨w, hlen'⟩ := hwalk hb
          rw [frameEnd_feed s t hlen'] at hfit ⊢
          have hcells := w.cells hfit
          rw [kshadow]
          intro c hc
          have hshow := hcells c (by rw [← w.total_eq] at hc; split <;> omega)
          rw [w.cols_eq] at hshow
          exact hshow
    · rw [kact] at hact
      cases hact
    · rw [kact] at hact
      cases hact
    · rw [frameEnd_obuf]
      exact eS_ne_nil (.inl (List.cons_ne_nil _ _))
  next hmore =>
    refine ⟨⟨fun hact => ?_, fun _ hb => (hwalk (hsame.toobig ▸ hb)).1,
      fun _ hb => hbig' (hsame.toobig ▸ hb)⟩, ?_, hsame.oOff, hsame.pushed⟩
    · rw [hsame.active, ha] at hact
      cases hact
    · rcases hends with he | he
      · exact absurd he hmore
      · intro hnil
        rw [hnil] at he
        exact absurd he (by decide)

/-- The geometry that `frame_decide` uses is in range. -/
theorem geom_bounds (s : Screen) : 0 < s.geomCols ∧ s.geomCols ≤ 132 ∧ s.geomRows ≤ 60 := by
  unfold Screen.geomCols Screen.geomRows
  refine ⟨?_, ?_, ?_⟩ <;> split <;> omega

/-- Either no frame starts, because the mode is too large or because the shadow is
up to date, or a frame starts, of one of three kinds. -/
theorem frameDecide_cases (serial : Bool) (s : Screen) (r : Render) :
    (∃ b, frameDecide serial s r = { r with isToobig := b } ∧
      (s.geomCols * s.geomRows * 2 ≤ SHADOW_BYTES →
        r.forceKf = false ∧ r.shadowValid = true ∧ s.geomCols = r.shCols ∧ s.geomRows = r.shRows ∧
        ∀ c < s.geomCols * s.geomRows, cellChanged s.base r.shadow c = false)) ∨
    ∃ clear repaint b heal,
      frameDecide serial s r =
        frameStart s.geomCols s.geomRows clear repaint { r with isToobig := b, healKf := heal } ∧
      (b = true → SHADOW_BYTES < s.geomCols * s.geomRows * 2 ∧ repaint = true) ∧
      (b = false → s.geomCols * s.geomRows * 2 ≤ SHADOW_BYTES) ∧
      (repaint = false → clear = false ∧ r.forceKf = false ∧ r.shadowValid = true ∧
        s.geomCols = r.shCols ∧ s.geomRows = r.shRows) := by
  have hclear : ∀ {p : Prop}, (r.forceKf || !r.shadowValid || s.geomCols ≠ r.shCols ||
      s.geomRows ≠ r.shRows) = false → ((r.forceKf = false ∧ r.shadowValid = true ∧
        s.geomCols = r.shCols ∧ s.geomRows = r.shRows) → p) → p := by
    intro p h hp
    simp only [Bool.or_eq_false_iff, Bool.not_eq_false', decide_eq_false_iff_not, ne_eq,
      not_not] at h
    exact hp ⟨h.1.1.1, h.1.1.2, h.1.2, h.2⟩
  unfold frameDecide
  dsimp only
  split
  next hbig =>
    split
    · exact .inr ⟨true, true, true, r.healKf, by simp [hbig], (fun _ => ⟨hbig, rfl⟩),
        (fun h => by cases h), (fun h => by cases h)⟩
    · exact .inl ⟨true, by simp [hbig], fun hsm => absurd hbig (Nat.not_lt.mpr hsm)⟩
  next hbig =>
    split
    · exact .inr ⟨_, true, false, r.healKf, by simp only [hbig, decide_false]; rfl,
        (fun h => by cases h), (fun _ => Nat.not_lt.mp hbig), (fun h => by cases h)⟩
    next hrep =>
      rw [Bool.or_eq_true, not_or] at hrep
      have hcl := Bool.eq_false_iff.mpr hrep.1
      split
      next hidle =>
        refine .inl ⟨false, by simp [hbig], fun _ => hclear hcl fun hk => ?_⟩
        refine ⟨hk.1, hk.2.1, hk.2.2.1, hk.2.2.2, fun c hc => ?_⟩
        have hnone := List.countP_eq_zero.mp hidle.1 c (List.mem_range.mpr hc)
        exact Bool.eq_false_iff.mpr hnone
      next =>
        refine .inr ⟨_, _, false, _, by simp only [hbig, decide_false]; rfl, (fun h => by cases h),
          (fun _ => Nat.not_lt.mp hbig), fun _ => hclear hcl fun hk => ⟨hcl, hk⟩⟩

/-- The terminal at the start of a frame. -/
theorem feed_frameStart (t : Term) (cols rows : Nat) (clear repaint : Bool) {r : Render}
    (ho : r.obuf = []) :
    (frameStart cols rows clear repaint r).obuf.length + 23 ≤ OBUF ∧
      t.feed (frameStart cols rows clear repaint r).obuf =
        if clear then { t with
          parser := .ground, wrap := false, visible := false, row := 0, col := 0
          grid := fun _ _ => Cell.blank }
        else { t with parser := .ground, wrap := false, visible := false } := by
  have hobuf : (frameStart cols rows clear repaint r).obuf =
      [0x1B, 0x5B, 0x3F, 0x37, 0x6C, 0x1B, 0x5B, 0x3F, 0x32, 0x35, 0x6C] ++
        if clear then [0x1B, 0x5B, 0x32, 0x4A, 0x1B, 0x5B, 0x48] else [] := by
    have hemit := (eS_emits [0x1B, 0x5B, 0x3F, 0x37, 0x6C, 0x1B, 0x5B, 0x3F, 0x32, 0x35,
      0x6C]).comp (Emits.ite (p := clear = true)
        (eS_emits [0x1B, 0x5B, 0x32, 0x4A, 0x1B, 0x5B, 0x48])) [] (by cases clear <;> decide)
    show (if clear = true then eS (eS r.obuf _) _ else eS r.obuf _) = _
    rw [ho]
    exact hemit
  rw [hobuf, Term.feed_append, feed_header]
  cases clear with
  | true =>
      rw [if_pos rfl, if_pos rfl, feed_clear]
      exact ⟨by decide, rfl⟩
  | false =>
      rw [if_neg (by decide), if_neg (by decide)]
      exact ⟨by decide, rfl⟩

theorem frameStart_active (cols rows : Nat) (clear repaint : Bool) (r : Render) :
    (frameStart cols rows clear repaint r).frameActive = true := rfl

/-- Every kind of frame starts with the invariant. -/
theorem MirrorInv.frameStart {t : Term} {r : Render} (h : MirrorInv t r) (s : Screen)
    {clear repaint b : Bool} (heal : BitVec 32) (hidle : r.frameActive = false) (ho : r.obuf = [])
    (hbig : b = true → SHADOW_BYTES < s.geomCols * s.geomRows * 2 ∧ repaint = true)
    (hsmall : b = false → s.geomCols * s.geomRows * 2 ≤ SHADOW_BYTES)
    (hdiff : repaint = false → clear = false ∧ r.forceKf = false ∧ r.shadowValid = true ∧
      s.geomCols = r.shCols ∧ s.geomRows = r.shRows) :
    MirrorInv (t.feed (Dossh.frameStart s.geomCols s.geomRows clear repaint
        { r with isToobig := b, healKf := heal }).obuf)
      (Dossh.frameStart s.geomCols s.geomRows clear repaint
        { r with isToobig := b, healKf := heal }) := by
  obtain ⟨_, hfeed⟩ := feed_frameStart t s.geomCols s.geomRows clear repaint
    (r := { r with isToobig := b, healKf := heal }) ho
  obtain ⟨hpos, hcols, hrows⟩ := geom_bounds s
  have hsh : (if repaint then s.geomCols else r.shCols) = s.geomCols ∧
      (if repaint then s.geomRows else r.shRows) = s.geomRows := by
    cases repaint with
    | true => exact ⟨rfl, rfl⟩
    | false => exact ⟨(hdiff rfl).2.2.2.1.symm, (hdiff rfl).2.2.2.2.symm⟩
  refine ⟨(fun hact => by cases hact), fun _ hb => ?_, fun _ hb => ?_⟩
  · rw [hfeed]
    have hstate : ∀ t' : Term, t' = (if clear then { t with
          parser := .ground, wrap := false, visible := false, row := 0, col := 0
          grid := fun _ _ => Cell.blank }
        else { t with parser := .ground, wrap := false, visible := false }) →
        t'.parser = .ground ∧ t'.wrap = false ∧ t'.rows = t.rows ∧ t'.cols = t.cols ∧
          (clear = false → t'.grid = t.grid) := by
      rintro t' rfl
      cases clear with
      | true => exact ⟨rfl, rfl, rfl, rfl, (fun h => by cases h)⟩
      | false => exact ⟨rfl, rfl, rfl, rfl, (fun _ => rfl)⟩
    obtain ⟨hp, hw, hr, hc, hg⟩ := hstate _ rfl
    generalize (if clear then ({ t with
      parser := .ground, wrap := false, visible := false, row := 0, col := 0
      grid := fun _ _ => Cell.blank } : Term)
      else { t with parser := .ground, wrap := false, visible := false }) = t' at *
    refine ⟨hp, hw, hsh.1.symm, ?_, hsmall hb, hpos, hcols, ?_, fun a ha => ?_,
      fun _ c hcc _ => ?_, fun hfit => ?_⟩
    · show s.geomCols * s.geomRows = (if repaint then _ else _) * (if repaint then _ else _)
      rw [hsh.1, hsh.2]
    · show (if repaint then _ else _) ≤ 60
      rw [hsh.2]
      exact hrows
    · have : (-1 : Int) = a.toNat := ha
      omega
    · have : (c : Int) = -2 + 1 := hcc
      omega
    · cases hrep : repaint with
      | true =>
          intro c hcw
          exact absurd hcw (Nat.not_lt_zero c)
      | false =>
          obtain ⟨hcl, hf, hv, hcc, hrr⟩ := hdiff hrep
          have hfit' : Fits t r.shCols r.shRows := by
            have hf1 : (if repaint then s.geomCols else r.shCols) ≤ t'.cols := hfit.1
            have hf2 : (if repaint then s.geomRows else r.shRows) ≤ t'.rows := hfit.2
            rw [hsh.1, hcc, hc] at hf1
            rw [hsh.2, hrr, hr] at hf2
            exact ⟨hf1, hf2⟩
          have hsm := hsmall hb
          rw [hcc, hrr] at hsm
          have hmir := h.idle hidle hv hf hsm hfit'
          intro c hcw
          have hcw' : c < s.geomCols * s.geomRows := hcw
          rw [hcc, hrr] at hcw'
          have hshow := hmir c hcw'
          unfold ShowsCell at hshow ⊢
          rw [hg hcl]
          show t.grid (c / s.geomCols) (c % s.geomCols) = _
          rw [hcc]
          exact hshow
  · show SHADOW_BYTES < (if repaint then _ else _) * (if repaint then _ else _) * 2
    rw [hsh.1, hsh.2]
    exact (hbig hb).1

/-! ## Bytes -/

/-- The bytes that were produced and not yet handed out. -/
def Render.pending (r : Render) : List UInt8 := r.pushed.toList ++ r.obuf.drop r.oOff

theorem renderRefill_active {r : Render} (serial : Bool) (s : Screen) (h : r.frameActive = true) :
    renderRefill serial s r = frameFill s { r with obuf := [], oOff := 0 } := by
  unfold renderRefill
  dsimp only
  rw [if_pos h, if_pos h]

theorem renderRefill_idle {r : Render} (serial : Bool) (s : Screen) (h : ¬ r.frameActive = true) :
    renderRefill serial s r =
      if (frameDecide serial s { r with obuf := [], oOff := 0 }).frameActive then
        frameFill s (frameDecide serial s { r with obuf := [], oOff := 0 })
      else frameDecide serial s { r with obuf := [], oOff := 0 } := by
  unfold renderRefill
  dsimp only
  rw [if_neg h]

/-- The refill of an empty buffer: nothing is sent and the shadow is up to date, or
a frame is under way and there is something to send. -/
theorem renderRefill_spec {t : Term} {r : Render} (h : MirrorInv t r) (serial : Bool) (s : Screen)
    (hp : r.pushed = none) :
    MirrorInv (t.feed (renderRefill serial s r).obuf) (renderRefill serial s r) ∧
      (renderRefill serial s r).oOff = 0 ∧ (renderRefill serial s r).pushed = none ∧
      ((renderRefill serial s r).obuf = [] →
        (renderRefill serial s r).shadow = r.shadow ∧
        (s.geomCols * s.geomRows * 2 ≤ SHADOW_BYTES → Fits t s.geomCols s.geomRows →
          Mirrors t r.shadow s.geomCols (s.geomCols * s.geomRows) ∧
          ∀ c < s.geomCols * s.geomRows, cellChanged s.base r.shadow c = false)) := by
  have h0 : MirrorInv t { r with obuf := [], oOff := 0 } := h.out [] 0 r.pushed
  by_cases hact : r.frameActive = true
  · rw [renderRefill_active serial s hact]
    obtain ⟨hinv, hne, hoff, hpu⟩ := h0.frameFill (r := { r with obuf := [], oOff := 0 }) s hact
      (by simp [OBUF])
    exact ⟨hinv, hoff, hpu.trans hp, fun hnil => absurd hnil hne⟩
  · have hidle : r.frameActive = false := Bool.eq_false_iff.mpr hact
    rcases frameDecide_cases serial s { r with obuf := [], oOff := 0 } with
      ⟨b, heq, hup⟩ | ⟨clear, repaint, b, heal, heq, hbig, hsmall, hdiff⟩
    · rw [renderRefill_idle serial s hact, heq, if_neg hact]
      refine ⟨⟨fun _ hv hf hsm hfit => h.idle hidle hv hf hsm hfit, fun ha => absurd ha hact,
        fun ha => absurd ha hact⟩, rfl, hp, fun _ => ⟨rfl, fun hsm hfit => ?_⟩⟩
      obtain ⟨hf, hv, hc, hr, hsame⟩ := hup hsm
      have hc' : s.geomCols = r.shCols := hc
      have hr' : s.geomRows = r.shRows := hr
      refine ⟨?_, hsame⟩
      rw [hc', hr'] at hsm hfit ⊢
      exact h.idle hidle hv hf hsm hfit
    · rw [renderRefill_idle serial s hact, heq, if_pos (frameStart_active _ _ _ _ _)]
      have hinv := h0.frameStart s heal hidle rfl hbig hsmall hdiff
      obtain ⟨hlen, _⟩ := feed_frameStart t s.geomCols s.geomRows clear repaint
        (r := { r with obuf := [], oOff := 0, isToobig := b, healKf := heal }) rfl
      obtain ⟨hinv', hne, hoff, hpu⟩ := hinv.frameFill s rfl hlen
      exact ⟨hinv', hoff, hpu.trans hp, fun hnil => absurd hnil hne⟩

/-- One call of `render_next_byte`: the byte it returns is the next pending one, and
it returns nothing only if the shadow is up to date and shown. -/
theorem renderNextByte_spec {t : Term} {r : Render} (h : MirrorInv (t.feed r.pending) r)
    (serial : Bool) (s : Screen) :
    match renderNextByte serial s r with
    | (some b, r') => r'.pushed = none ∧ MirrorInv (t.feed (b :: r'.pending)) r'
    | (none, r') => MirrorInv (t.feed r'.pending) r' ∧
        (s.geomCols * s.geomRows * 2 ≤ SHADOW_BYTES → Fits t s.geomCols s.geomRows →
          Mirrors t r'.shadow s.geomCols (s.geomCols * s.geomRows) ∧
          Mirrors t s.base s.geomCols (s.geomCols * s.geomRows)) := by
  unfold renderNextByte
  cases hp : r.pushed with
  | some b =>
      refine ⟨rfl, ?_⟩
      have hpend : r.pending = b :: r.obuf.drop r.oOff := by rw [Render.pending, hp]; rfl
      rw [hpend] at h
      exact h.out r.obuf r.oOff none
  | none =>
      have hpend : r.pending = r.obuf.drop r.oOff := by rw [Render.pending, hp]; rfl
      rw [hpend] at h
      dsimp only
      by_cases hlt : r.oOff < r.obuf.length
      · have heq : obufNext r = (some r.obuf[r.oOff], { r with oOff := r.oOff + 1 }) := by
          rw [obufNext, if_pos hlt, List.getElem?_eq_getElem hlt]
        rw [if_pos hlt, heq]
        refine ⟨hp, ?_⟩
        rw [List.drop_eq_getElem_cons hlt] at h
        have hpend' : ({ r with oOff := r.oOff + 1 } : Render).pending =
            r.obuf.drop (r.oOff + 1) := by rw [Render.pending]; simp [hp]
        rw [hpend']
        exact h.out r.obuf (r.oOff + 1) r.pushed
      · rw [if_neg hlt]
        rw [List.drop_eq_nil_of_le (Nat.not_lt.mp hlt)] at h
        obtain ⟨hinv, hoff, hpu, hnil⟩ := renderRefill_spec h serial s hp
        rw [Term.feed_nil] at hnil hinv
        generalize renderRefill serial s r = r' at *
        by_cases hlt' : r'.oOff < r'.obuf.length
        · have heq : obufNext r' = (some r'.obuf[r'.oOff], { r' with oOff := r'.oOff + 1 }) := by
            rw [obufNext, if_pos hlt', List.getElem?_eq_getElem hlt']
          rw [heq]
          refine ⟨hpu, ?_⟩
          have hpend' : r'.obuf[r'.oOff] :: ({ r' with oOff := r'.oOff + 1 } : Render).pending =
              r'.obuf := by
            rw [Render.pending, hpu]
            show r'.obuf[r'.oOff] :: r'.obuf.drop (r'.oOff + 1) = r'.obuf
            rw [← List.drop_eq_getElem_cons hlt', hoff, List.drop_zero]
          rw [hpend']
          exact hinv.out r'.obuf (r'.oOff + 1) r'.pushed
        · rw [obufNext, if_neg hlt']
          have hempty : r'.obuf = [] := by
            rw [hoff] at hlt'
            exact List.length_eq_zero_iff.mp (by omega)
          have hpend' : r'.pending = [] := by rw [Render.pending, hpu, hempty]; simp
          obtain ⟨hsh, hmir⟩ := hnil hempty
          rw [hempty] at hinv
          dsimp only
          rw [hpend']
          refine ⟨hinv, fun hsm hfit => ?_⟩
          obtain ⟨hshown, hsame⟩ := hmir hsm hfit
          rw [hsh]
          refine ⟨hshown, fun c hc => ?_⟩
          have hcell := hsame c hc
          simp only [cellChanged, Bool.or_eq_false_iff, decide_eq_false_iff_not, ne_eq,
            not_not] at hcell
          rw [ShowsCell, hcell.1, hcell.2]
          exact hshown c hc

/-! ## Runs -/

/-- A caller pulls one byte: the transport takes it, or it is handed back. -/
structure Pull where
  serial : Bool
  screen : Screen
  accept : Bool

/-- The renderer and a terminal that applies the bytes the transport took. -/
def Pull.run (st : Render × Term) (p : Pull) : Render × Term :=
  match renderNextByte p.serial p.screen st.1 with
  | (none, r) => (r, st.2)
  | (some b, r) => if p.accept then (r, st.2.byte b) else (renderPushback b r, st.2)

/-- The renderer and the terminal after a sequence of pulls. -/
def pullAll (pulls : List Pull) (st : Render × Term) : Render × Term := pulls.foldl Pull.run st

/-- A terminal whose parser stands inside a control sequence. -/
def garbledTerm : Term where
  rows := 24
  cols := 80
  grid := fun _ _ => ⟨0x3F, Sgr.plain⟩
  row := 7
  col := 79
  sgr := ⟨31, 44, true⟩
  wrap := true
  visible := true
  parser := .csi false [3] 1

/-- The transport refuses the first byte once and then takes everything. -/
def tinyPulls : List Pull :=
  ⟨false, tinyScreen, false⟩ :: List.replicate 60 ⟨false, tinyScreen, true⟩

end Dossh
