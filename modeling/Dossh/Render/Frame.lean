import Dossh.Render.Mirror

/-!
# The frames as byte sequences

What `render.c` sends, without a terminal that reads it.  No byte is `0xFF`, whatever the screen
holds.  After `render_reset` the bytes are those of one frame that clears the screen and paints
every cell, and they are in the buffer in the order in which they are handed out.  The cells of a
frame are read in several calls, so it need not show one state of the screen.
-/

namespace Dossh

/-! ## No IAC -/

theorem eB_plain {o : List UInt8} (h : 0xFF ∉ o) {c : UInt8} (hc : c ≠ 0xFF) : 0xFF ∉ eB o c := by
  unfold eB
  split
  · simp only [List.mem_append, List.mem_singleton, not_or]
    exact ⟨h, hc.symm⟩
  · exact h

theorem eS_plain : ∀ {s o : List UInt8}, 0xFF ∉ o → 0xFF ∉ s → 0xFF ∉ eS o s
  | [], _, h, _ => h
  | c :: s, o, h, hs => by
      rw [List.mem_cons, not_or] at hs
      exact eS_plain (s := s) (eB_plain h (Ne.symm hs.1)) hs.2

theorem numDigits_plain : ∀ (fuel v : Nat) {t : List UInt8}, 0xFF ∉ t → 0xFF ∉ numDigits fuel v t
  | 0, _, _, h => h
  | fuel + 1, v, t, h => by
      rw [numDigits]
      split
      · exact h
      · refine numDigits_plain fuel _ ?_
        have hdigit : ∀ d < 10, UInt8.ofNat (0x30 + d) ≠ 0xFF := by decide
        rw [List.mem_cons, not_or]
        exact ⟨(hdigit _ (Nat.mod_lt _ (by decide))).symm, h⟩

theorem eNum_plain {o : List UInt8} (h : 0xFF ∉ o) (v : Nat) : 0xFF ∉ eNum o v := by
  unfold eNum
  split
  · exact eB_plain h (by decide)
  · exact eS_plain h (numDigits_plain 6 v (by simp))

theorem eCup_plain {o : List UInt8} (h : 0xFF ∉ o) (row col : Nat) : 0xFF ∉ eCup o row col :=
  eB_plain (eNum_plain (eB_plain (eNum_plain (eS_plain h (by decide)) _) (by decide)) _) (by decide)

theorem eSgr_plain {o : List UInt8} (h : 0xFF ∉ o) (attr : UInt8) : 0xFF ∉ eSgr o attr := by
  have hcolours : 0xFF ∉ eNum (eB (eNum (eS o [0x1B, 0x5B, 0x30, 0x3B]) (sgrFg attr)) 0x3B)
      (sgrBg attr) :=
    eNum_plain (eB_plain (eNum_plain (eS_plain h (by decide)) _) (by decide)) _
  unfold eSgr
  dsimp only
  refine eB_plain ?_ (by decide)
  split
  · exact eS_plain hcolours (by decide)
  · exact hcolours

theorem eChar_plain {o : List UInt8} (h : 0xFF ∉ o) (ch : UInt8) : 0xFF ∉ eChar o ch := by
  have htable : ∀ ch : UInt8, 0xFF ∉ charBytes ch := forall_byte (by decide +kernel)
  exact eS_plain h (htable ch)

theorem frameStart_plain (cols rows : Nat) (clear repaint : Bool) {r : Render}
    (h : 0xFF ∉ r.obuf) : 0xFF ∉ (frameStart cols rows clear repaint r).obuf := by
  have hhead : 0xFF ∉ eS r.obuf [0x1B, 0x5B, 0x3F, 0x37, 0x6C, 0x1B, 0x5B, 0x3F, 0x32, 0x35, 0x6C] :=
    eS_plain h (by decide)
  unfold frameStart
  dsimp only
  split
  · exact eS_plain hhead (by decide)
  · exact hhead

theorem fillCell_plain (v : Nat → UInt8) {r : Render} (h : 0xFF ∉ r.obuf) :
    0xFF ∉ (fillCell v r).obuf := by
  unfold fillCell
  dsimp only
  split
  · refine eChar_plain ?_ _
    have hcup : 0xFF ∉ (if (r.walkCell : Int) ≠ r.lastEmit + 1 ∨ r.walkCell % r.fCols = 0 then
        eCup r.obuf (r.walkCell / r.fCols) (r.walkCell % r.fCols) else r.obuf) := by
      split
      · exact eCup_plain h _ _
      · exact h
    split
    · exact eSgr_plain hcup _
    · exact hcup
  · exact h

theorem fillLoop_plain (v : Nat → UInt8) : ∀ (fuel : Nat) {r : Render}, 0xFF ∉ r.obuf →
    0xFF ∉ (fillLoop v fuel r).obuf
  | 0, _, h => h
  | fuel + 1, r, h => by
      rw [fillLoop]
      repeat' split
      · exact h
      · exact fillLoop_plain v fuel (fillCell_plain v h)
      · exact h

theorem frameFill_plain (s : Screen) {r : Render} (h : 0xFF ∉ r.obuf) :
    0xFF ∉ (frameFill s r).obuf := by
  have hloop := fillLoop_plain s.base (r.totalCells - r.walkCell) h
  unfold frameFill
  dsimp only
  split
  · rw [frameEnd_obuf]
    refine eS_plain (eCup_plain hloop _ _) ?_
    split <;> decide
  · exact hloop

theorem renderRefill_plain (serial : Bool) (s : Screen) (r : Render) :
    0xFF ∉ (renderRefill serial s r).obuf := by
  by_cases hact : r.frameActive = true
  · rw [renderRefill_active serial s hact]
    exact frameFill_plain s (by simp)
  · rw [renderRefill_idle serial s hact]
    have hdecide : 0xFF ∉ (frameDecide serial s { r with obuf := [], oOff := 0 }).obuf := by
      rcases frameDecide_cases serial s { r with obuf := [], oOff := 0 } with
        ⟨b, heq, -⟩ | ⟨clear, repaint, b, heal, heq, -⟩
      · rw [heq]
        simp
      · rw [heq]
        exact frameStart_plain _ _ _ _ (by simp)
    split
    · exact frameFill_plain s hdecide
    · exact hdecide

/-! ## One call -/

theorem frameFill_same (s : Screen) (r : Render) :
    (frameFill s r).oOff = r.oOff ∧ (frameFill s r).pushed = r.pushed := by
  obtain ⟨hsame, -⟩ := fillLoop_ends s.base (r.totalCells - r.walkCell) r (by omega)
  unfold frameFill
  dsimp only
  split
  · exact ⟨hsame.oOff, hsame.pushed⟩
  · exact ⟨hsame.oOff, hsame.pushed⟩

theorem renderRefill_same (serial : Bool) (s : Screen) (r : Render) :
    (renderRefill serial s r).oOff = 0 ∧ (renderRefill serial s r).pushed = r.pushed := by
  by_cases hact : r.frameActive = true
  · rw [renderRefill_active serial s hact]
    exact frameFill_same s _
  · rw [renderRefill_idle serial s hact]
    have hdecide : (frameDecide serial s { r with obuf := [], oOff := 0 }).oOff = 0 ∧
        (frameDecide serial s { r with obuf := [], oOff := 0 }).pushed = r.pushed := by
      rcases frameDecide_cases serial s { r with obuf := [], oOff := 0 } with
        ⟨b, heq, -⟩ | ⟨clear, repaint, b, heal, heq, -⟩
      · rw [heq]
        exact ⟨rfl, rfl⟩
      · rw [heq]
        exact ⟨rfl, rfl⟩
    split
    · obtain ⟨hoff, hpushed⟩ := frameFill_same s (frameDecide serial s { r with obuf := [], oOff := 0 })
      exact ⟨hoff.trans hdecide.1, hpushed.trans hdecide.2⟩
    · exact hdecide

/-- The renderer with the first pending byte handed out. -/
def Render.Pulls (r : Render) (b : Option UInt8) (r' : Render) : Prop :=
  (∃ off, r' = { r with oOff := off, pushed := none }) ∧ b.toList ++ r'.pending = r.pending ∧
    (b = none → r.pending = [])

theorem obufNext_pulls {r : Render} (hp : r.pushed = none) :
    r.Pulls (obufNext r).1 (obufNext r).2 := by
  have hpend : r.pending = r.obuf.drop r.oOff := by rw [Render.pending, hp]; rfl
  unfold obufNext
  split
  next hlt =>
    rw [List.getElem?_eq_getElem hlt]
    refine ⟨⟨r.oOff + 1, by rw [← hp]⟩, ?_, fun hnone => by cases hnone⟩
    rw [hpend, List.drop_eq_getElem_cons hlt, Render.pending, hp]
    rfl
  next hlt =>
    have hnil : r.pending = [] := by
      rw [hpend]
      exact List.drop_eq_nil_of_le (Nat.not_lt.mp hlt)
    exact ⟨⟨r.oOff, by rw [← hp]⟩, by rw [hnil]; rfl, fun _ => hnil⟩

/-- A call hands out the next pending byte, after a refill if there is none. -/
theorem renderNextByte_pulls (serial : Bool) (s : Screen) (r : Render) :
    r.Pulls (renderNextByte serial s r).1 (renderNextByte serial s r).2 ∨
      r.pending = [] ∧ (renderRefill serial s r).Pulls (renderNextByte serial s r).1
        (renderNextByte serial s r).2 := by
  unfold renderNextByte
  cases hp : r.pushed with
  | some b =>
      refine .inl ⟨⟨r.oOff, rfl⟩, ?_, nofun⟩
      rw [Render.pending, Render.pending, hp]
      rfl
  | none =>
      dsimp only
      split
      · exact .inl (obufNext_pulls hp)
      next hlt =>
        refine .inr ⟨?_, obufNext_pulls ((renderRefill_same serial s r).2.trans hp)⟩
        rw [Render.pending, hp]
        exact List.drop_eq_nil_of_le (Nat.not_lt.mp hlt)

theorem renderRefill_pending (serial : Bool) (s : Screen) {r : Render} (h : r.pending = []) :
    (renderRefill serial s r).pending = (renderRefill serial s r).obuf := by
  have hp : r.pushed = none := by
    cases hp : r.pushed with
    | none => rfl
    | some b =>
        rw [Render.pending, hp] at h
        cases h
  obtain ⟨hoff, hpushed⟩ := renderRefill_same serial s r
  rw [Render.pending, hoff, hpushed, hp]
  rfl

/-- No pending byte is `0xFF`. -/
def Render.Plain (r : Render) : Prop := 0xFF ∉ r.pending

theorem renderNextByte_plain (serial : Bool) (s : Screen) {r : Render} (h : r.Plain) :
    0xFF ∉ (renderNextByte serial s r).1.toList ∧ (renderNextByte serial s r).2.Plain := by
  have hpull : ∀ {r b r'}, Render.Pulls r b r' → 0xFF ∉ r.pending →
      0xFF ∉ b.toList ∧ r'.Plain := by
    intro r b r' hp h
    rw [← hp.2.1, List.mem_append, not_or] at h
    exact h
  rcases renderNextByte_pulls serial s r with hp | ⟨hnil, hp⟩
  · exact hpull hp h
  · refine hpull hp ?_
    rw [renderRefill_pending serial s hnil]
    exact renderRefill_plain serial s r

/-! ## Full frames -/

/-- The head of a frame that clears the screen: auto-wrap off, cursor hidden, clear, home. -/
def clearHead : List UInt8 :=
  [0x1B, 0x5B, 0x3F, 0x37, 0x6C, 0x1B, 0x5B, 0x3F, 0x32, 0x35, 0x6C] ++
    [0x1B, 0x5B, 0x32, 0x4A, 0x1B, 0x5B, 0x48]

/-- The attribute selected after some cells. -/
def lastAttr (cells : List (UInt8 × UInt8)) : Option UInt8 := cells.getLast?.map Prod.snd

/-- The bytes of cell `c`, a character and its attribute, behind a selected attribute. -/
def paintCell (cols c : Nat) (sel : Option UInt8) (cell : UInt8 × UInt8) : List UInt8 :=
  (if c % cols = 0 then cupBytes (c / cols) (c % cols) else []) ++
    (if sel = some cell.2 then [] else sgrBytes cell.2) ++ charBytes cell.1

/-- The bytes of the cells from cell `c` on. -/
def paintFrom (cols : Nat) : Nat → Option UInt8 → List (UInt8 × UInt8) → List UInt8
  | _, _, [] => []
  | c, sel, cell :: cells =>
      paintCell cols c sel cell ++ paintFrom cols (c + 1) (some cell.2) cells

/-- The end of a frame: the cursor is parked, and shown or hidden. -/
def frameTail (row col : Nat) (visible : Bool) : List UInt8 :=
  cupBytes row col ++ [0x1B, 0x5B, 0x3F, 0x32, 0x35, if visible then 0x68 else 0x6C]

/-- A complete frame that clears the screen and paints every cell of it. -/
def FullFrame (bs : List UInt8) : Prop :=
  ∃ (cols rows : Nat) (cells : List (UInt8 × UInt8)) (row col : Nat) (visible : Bool),
    0 < cols ∧ cells.length = cols * rows ∧
      bs = clearHead ++ paintFrom cols 0 none cells ++ frameTail row col visible

theorem paintFrom_append (cols : Nat) (more : List (UInt8 × UInt8)) :
    ∀ (cells : List (UInt8 × UInt8)) (c : Nat) (sel : Option UInt8),
      paintFrom cols c sel (cells ++ more) = paintFrom cols c sel cells ++
        paintFrom cols (c + cells.length) ((lastAttr cells).or sel) more
  | [], c, sel => by simp [paintFrom, lastAttr]
  | cell :: cells, c, sel => by
      rw [List.cons_append, paintFrom, paintFrom, paintFrom_append cols more cells (c + 1),
        List.append_assoc, List.length_cons]
      have hsel : (lastAttr cells).or (some cell.2) = (lastAttr (cell :: cells)).or sel := by
        cases cells with
        | nil => rfl
        | cons cell' cells =>
            rw [lastAttr, lastAttr, List.getLast?_cons_cons]
            cases hlast : (cell' :: cells).getLast? with
            | none => simp at hlast
            | some last => rfl
      rw [hsel, Nat.add_assoc, Nat.add_comm 1]

/-- A full frame is under way: `p` is its head and the cells painted so far. -/
structure PaintWalk (rows : Nat) (cells : List (UInt8 × UInt8)) (p : List UInt8)
    (r : Render) : Prop where
  active : r.frameActive = true
  repaint : r.isRepaint = true
  cols : 0 < r.fCols ∧ r.fCols ≤ 132
  rows_le : rows ≤ 60
  total : r.totalCells = r.fCols * rows
  walk : r.walkCell = cells.length
  le : cells.length ≤ r.totalCells
  sgr : r.curSgr = (lastAttr cells).elim (-1) fun a => (a.toNat : Int)
  emit : cells = [] ∨ r.lastEmit + 1 = r.walkCell
  bytes : p = clearHead ++ paintFrom r.fCols 0 none cells

/-- What the renderer has produced since `render_reset`: nothing, a part of a full frame, or at
least one. -/
inductive Painting (p : List UInt8) (r : Render) : Prop where
  | fresh (hp : p = []) (hidle : r.frameActive = false) (hforce : r.forceKf = true)
  | walking (rows : Nat) (cells : List (UInt8 × UInt8)) (hwalk : PaintWalk rows cells p r)
  | painted (frame : List UInt8) (hframe : FullFrame frame) (hp : frame <+: p)

theorem PaintWalk.out {rows : Nat} {cells : List (UInt8 × UInt8)} {p : List UInt8} {r : Render}
    (h : PaintWalk rows cells p r) (o : List UInt8) (off : Nat) (pushed : Option UInt8) :
    PaintWalk rows cells p { r with obuf := o, oOff := off, pushed := pushed } :=
  ⟨h.active, h.repaint, h.cols, h.rows_le, h.total, h.walk, h.le, h.sgr, h.emit, h.bytes⟩

/-- Only the frame and its cells matter, not the buffer. -/
theorem Painting.out {p : List UInt8} {r : Render} (h : Painting p r) (o : List UInt8) (off : Nat)
    (pushed : Option UInt8) : Painting p { r with obuf := o, oOff := off, pushed := pushed } := by
  cases h with
  | fresh hp hidle hforce => exact .fresh hp hidle hforce
  | walking rows cells hwalk => exact .walking rows cells (hwalk.out o off pushed)
  | painted frame hframe hp => exact .painted frame hframe hp

namespace PaintWalk

variable {rows : Nat} {cells : List (UInt8 × UInt8)} {p : List UInt8} {r : Render}

/-- The bytes of the next cell. -/
theorem cellBytes (h : PaintWalk rows cells p r) (v : Nat → UInt8) :
    Dossh.cellBytes v r = paintCell r.fCols cells.length (lastAttr cells)
      (v (r.walkCell * 2), v (r.walkCell * 2 + 1)) := by
  have hcup : ((r.walkCell : Int) ≠ r.lastEmit + 1 ∨ r.walkCell % r.fCols = 0) ↔
      cells.length % r.fCols = 0 := by
    have hwalk := h.walk
    rcases h.emit with rfl | hnext
    · rw [hwalk]
      simp
    · rw [hnext, hwalk]
      simp
  have hsel : ((v (r.walkCell * 2 + 1)).toNat : Int) ≠ r.curSgr ↔
      ¬ lastAttr cells = some (v (r.walkCell * 2 + 1)) := by
    rw [h.sgr]
    cases lastAttr cells with
    | none => simp
    | some a =>
        simp only [Option.elim_some, ne_eq, Option.some.injEq, Int.natCast_inj, UInt8.toNat_inj]
        exact not_congr eq_comm
  unfold Dossh.cellBytes paintCell
  simp only [hcup, hsel, ite_not]
  rw [h.walk]

theorem row_le (h : PaintWalk rows cells p r) (hlt : r.walkCell < r.totalCells) :
    r.walkCell / r.fCols ≤ 255 ∧ r.walkCell % r.fCols ≤ 255 := by
  rw [h.total] at hlt
  exact cell_le h.cols.1 h.cols.2 h.rows_le hlt

/-- One cell. -/
theorem fillCell {before : List UInt8} (h : PaintWalk rows cells (before ++ r.obuf) r)
    (v : Nat → UInt8) (hlt : r.walkCell < r.totalCells) (hroom : r.obuf.length + 48 ≤ OBUF) :
    PaintWalk rows (cells ++ [(v (r.walkCell * 2), v (r.walkCell * 2 + 1))])
        (before ++ (fillCell v r).obuf) (fillCell v r) ∧
      (Dossh.fillCell v r).obuf.length + 23 ≤ OBUF := by
  have hsent : cellSent v r = true := by
    rw [cellSent, h.repaint]
    rfl
  have hlen := cellBytes_length (v := v) (h.row_le hlt).1 (h.row_le hlt).2
  have hobuf := fillCell_obuf hsent (by omega)
  have hfields : (Dossh.fillCell v r).frameActive = r.frameActive ∧
      (Dossh.fillCell v r).isRepaint = r.isRepaint ∧ (Dossh.fillCell v r).fCols = r.fCols ∧
      (Dossh.fillCell v r).totalCells = r.totalCells ∧
      (Dossh.fillCell v r).walkCell = r.walkCell + 1 ∧
      (Dossh.fillCell v r).curSgr = (v (r.walkCell * 2 + 1)).toNat ∧
      (Dossh.fillCell v r).lastEmit = r.walkCell := by
    rw [cellSent] at hsent
    rw [Dossh.fillCell, if_pos hsent]
    exact ⟨rfl, rfl, rfl, rfl, rfl, rfl, rfl⟩
  obtain ⟨hactive, hrepaint, hcols, htotal, hwalk, hsgr, hemit⟩ := hfields
  refine ⟨⟨hactive.trans h.active, hrepaint.trans h.repaint, ?_, h.rows_le, ?_, ?_, ?_, ?_, ?_, ?_⟩,
    ?_⟩
  · rw [hcols]
    exact h.cols
  · rw [htotal, hcols]
    exact h.total
  · rw [hwalk, h.walk, List.length_append, List.length_singleton]
  · rw [htotal, List.length_append, List.length_singleton, ← h.walk]
    exact hlt
  · rw [hsgr, lastAttr, List.getLast?_concat]
    rfl
  · rw [hemit, hwalk]
    exact .inr (by norm_cast)
  · rw [hobuf, hcols, ← List.append_assoc, h.bytes, h.cellBytes v, paintFrom_append, Nat.zero_add,
      Option.or_none, List.append_assoc, paintFrom, paintFrom, List.append_nil]
  · rw [hobuf, List.length_append]
    omega

theorem fillLoop (v : Nat → UInt8) {before : List UInt8} : ∀ (fuel : Nat) {r : Render}
    {cells : List (UInt8 × UInt8)}, PaintWalk rows cells (before ++ r.obuf) r →
      r.obuf.length + 23 ≤ OBUF →
      ∃ cells', PaintWalk rows cells' (before ++ (fillLoop v fuel r).obuf) (fillLoop v fuel r) ∧
        (Dossh.fillLoop v fuel r).obuf.length + 23 ≤ OBUF
  | 0, _, cells, h, hlen => ⟨cells, h, hlen⟩
  | fuel + 1, r, cells, h, hlen => by
      rw [Dossh.fillLoop]
      split
      next hlt =>
        split
        · exact ⟨cells, h, hlen⟩
        next hroom =>
          obtain ⟨hcell, hlen'⟩ := h.fillCell v hlt (by omega)
          exact fillLoop v fuel hcell hlen'
      next => exact ⟨cells, h, hlen⟩

/-- A refill paints more cells or ends the frame. -/
theorem frameFill {before : List UInt8} (h : PaintWalk rows cells (before ++ r.obuf) r) (s : Screen)
    (hlen : r.obuf.length + 23 ≤ OBUF) :
    Painting (before ++ (frameFill s r).obuf) (frameFill s r) := by
  obtain ⟨cells', hwalk, hlen'⟩ := h.fillLoop s.base (r.totalCells - r.walkCell) hlen
  unfold Dossh.frameFill
  dsimp only
  generalize Dossh.fillLoop s.base (r.totalCells - r.walkCell) r = r' at *
  split
  next hdone =>
    refine .painted (before ++ (frameEnd s r').obuf) ?_ List.prefix_rfl
    refine ⟨r'.fCols, rows, cells', s.cursorRow.toNat, s.cursorCol.toNat, s.cursorVisible,
      hwalk.cols.1, ?_, ?_⟩
    · have hle := hwalk.le
      rw [← hwalk.total]
      rw [hwalk.walk] at hdone
      omega
    · have hr := byte_le s.cursorRow
      have hc := byte_le s.cursorCol
      have hcup := cupBytes_length hr hc
      have hemit : eS (eCup r'.obuf s.cursorRow.toNat s.cursorCol.toNat)
          [0x1B, 0x5B, 0x3F, 0x32, 0x35, if s.cursorVisible then 0x68 else 0x6C] = _ :=
        ((eCup_emits s.cursorRow.toNat s.cursorCol.toNat).comp (eS_emits _)) r'.obuf
          (by simp; omega)
      rw [frameEnd_obuf, hemit, ← List.append_assoc, hwalk.bytes]
      rfl
  next => exact .walking rows cells' hwalk

end PaintWalk

/-- After `render_reset` the next frame clears the screen and paints all of it. -/
theorem frameDecide_forced (serial : Bool) (s : Screen) {r : Render} (h : r.forceKf = true) :
    ∃ b, frameDecide serial s r =
      frameStart s.geomCols s.geomRows true true { r with isToobig := b } := by
  unfold frameDecide
  dsimp only
  simp only [h, Bool.true_or, if_true]
  split
  next hbig => exact ⟨true, by simp [hbig]⟩
  next hbig => exact ⟨false, by simp [hbig]⟩

theorem frameStart_clear (cols rows : Nat) (b : Bool) (r : Render) (h : r.obuf = []) :
    (frameStart cols rows true true { r with isToobig := b }).obuf = clearHead := by
  simp only [frameStart, h, if_true]
  rfl

theorem PaintWalk.start (s : Screen) (b : Bool) (r : Render) :
    PaintWalk s.geomRows [] clearHead
      (frameStart s.geomCols s.geomRows true true { r with isToobig := b }) := by
  obtain ⟨hpos, hcols, hrows⟩ := geom_bounds s
  refine ⟨rfl, rfl, ⟨hpos, hcols⟩, hrows, rfl, rfl, Nat.zero_le _, rfl, .inl rfl, ?_⟩
  rw [paintFrom, List.append_nil]

theorem renderRefill_forced (serial : Bool) (s : Screen) {r : Render} (hidle : r.frameActive = false)
    (hforce : r.forceKf = true) :
    ∃ r₁ rows, renderRefill serial s r = frameFill s r₁ ∧ r₁.obuf = clearHead ∧
      PaintWalk rows [] clearHead r₁ := by
  have hact : ¬ r.frameActive = true := by
    rw [hidle]
    exact Bool.false_ne_true
  have hdecide := frameDecide_forced serial s (r := { r with obuf := [], oOff := 0 }) hforce
  obtain ⟨b, heq⟩ := hdecide
  refine ⟨frameDecide serial s { r with obuf := [], oOff := 0 }, s.geomRows, ?_, ?_, ?_⟩
  · rw [renderRefill_idle serial s hact, if_pos]
    rw [heq]
    exact frameStart_active _ _ _ _ _
  · rw [heq]
    exact frameStart_clear _ _ b _ rfl
  · rw [heq]
    exact .start s b _

theorem Painting.refill {p : List UInt8} {r : Render} (h : Painting p r) (serial : Bool)
    (s : Screen) : Painting (p ++ (renderRefill serial s r).obuf) (renderRefill serial s r) := by
  cases h with
  | fresh hp hidle hforce =>
      obtain ⟨r₁, rows, heq, hobuf, hstart⟩ := renderRefill_forced serial s hidle hforce
      rw [heq, hp]
      have hwalk : PaintWalk rows [] ([] ++ r₁.obuf) r₁ := by
        rw [hobuf]
        exact hstart
      refine hwalk.frameFill s ?_
      rw [hobuf]
      decide
  | walking rows cells hwalk =>
      rw [renderRefill_active serial s hwalk.active]
      have hbuf : PaintWalk rows cells (p ++ []) { r with obuf := [], oOff := 0 } := by
        rw [List.append_nil]
        exact hwalk.out [] 0 r.pushed
      have hroom : ([] : List UInt8).length + 23 ≤ OBUF := by decide
      exact hbuf.frameFill s hroom
  | painted frame hframe hp => exact .painted frame hframe (hp.trans (List.prefix_append _ _))

/-- A byte handed out stays a byte of the frame. -/
theorem Painting.next {w : List UInt8} {r : Render} (h : Painting (w ++ r.pending) r)
    (serial : Bool) (s : Screen) :
    Painting (w ++ (renderNextByte serial s r).1.toList ++ (renderNextByte serial s r).2.pending)
      (renderNextByte serial s r).2 := by
  have hpull : ∀ {r b r'}, Render.Pulls r b r' → Painting (w ++ r.pending) r →
      Painting (w ++ b.toList ++ r'.pending) r' := by
    intro r b r' hp h
    obtain ⟨⟨off, heq⟩, hbytes, -⟩ := hp
    rw [List.append_assoc, hbytes, heq]
    exact h.out r.obuf off none
  rcases renderNextByte_pulls serial s r with hp | ⟨hnil, hp⟩
  · exact hpull hp h
  · refine hpull hp ?_
    rw [renderRefill_pending serial s hnil]
    rw [hnil, List.append_nil] at h
    exact h.refill serial s

theorem Painting.reset (now : BitVec 32) (r : Render) : Painting [] (renderReset now r) :=
  .fresh rfl rfl rfl

/-- The bytes start a full frame: they are the first part of one, or one and what follows. -/
def BeginsFrame (w : List UInt8) : Prop := ∃ frame, FullFrame frame ∧ (w <+: frame ∨ frame <+: w)

theorem Painting.begins {p w : List UInt8} {r : Render} (h : Painting p r) (hw : w <+: p) :
    BeginsFrame w := by
  have hsome : ∀ {cols : Nat} (rows : Nat) (cells : List (UInt8 × UInt8)), 0 < cols →
      cells.length ≤ cols * rows → w <+: clearHead ++ paintFrom cols 0 none cells →
      BeginsFrame w := by
    intro cols rows cells hpos hle hw
    -- the cells that are missing may be anything
    refine ⟨_, ⟨cols, rows, cells ++ List.replicate (cols * rows - cells.length) (0, 0), 0, 0, true,
      hpos, ?_, rfl⟩, .inl ?_⟩
    · rw [List.length_append, List.length_replicate]
      omega
    · rw [paintFrom_append, ← List.append_assoc, List.append_assoc]
      exact hw.trans (List.prefix_append _ _)
  cases h with
  | fresh hp _ _ =>
      rw [hp, List.prefix_nil] at hw
      subst hw
      exact hsome 0 [] Nat.one_pos (Nat.zero_le _) List.nil_prefix
  | walking rows cells hwalk =>
      refine hsome rows cells hwalk.cols.1 (hwalk.total ▸ hwalk.le) ?_
      rw [← hwalk.bytes]
      exact hw
  | painted frame hframe hp =>
      exact ⟨frame, hframe, List.prefix_or_prefix_of_prefix hw hp⟩

end Dossh
