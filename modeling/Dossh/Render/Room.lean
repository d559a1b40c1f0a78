import Dossh.Render.Cursor

/-!
# Room in the output buffer

`e_b` drops a byte when the buffer is full.  `asked` is everything that one refill hands to `e_b`, in
this order; the buffer then holds the first `OBUF` bytes of it, from any state.  `frame_fill` stops
before a cell that might not leave room for the end of the frame, so in a reachable state nothing is
dropped, and the buffer holds complete escape sequences and characters only.
-/

namespace Dossh

open Terminal

/-! ## Truncation -/

/-- The helper hands `bs` to `e_b`: it appends as many of them as there is room for. -/
def Asks (f : List UInt8 → List UInt8) (bs : List UInt8) : Prop :=
  ∀ o, o.length ≤ OBUF → f o = (o ++ bs).take OBUF

theorem take_take_append (o bs : List UInt8) :
    ((o.take OBUF) ++ bs).take OBUF = (o ++ bs).take OBUF := by
  rw [List.take_append, List.take_take, List.take_append, List.length_take, Nat.min_self]
  congr 2
  omega

theorem Asks.comp {f g : List UInt8 → List UInt8} {bs bs' : List UInt8} (hf : Asks f bs)
    (hg : Asks g bs') : Asks (fun o => g (f o)) (bs ++ bs') := by
  intro o h
  have hle : (f o).length ≤ OBUF := by
    rw [hf o h]
    exact List.length_take_le _ _
  show g (f o) = _
  rw [hg _ hle, hf o h, take_take_append, List.append_assoc]

theorem Asks.nothing : Asks (fun o => o) [] := by
  intro o h
  rw [List.append_nil, List.take_of_length_le h]

theorem Asks.ite {p : Prop} [Decidable p] {f : List UInt8 → List UInt8} {bs : List UInt8}
    (hf : Asks f bs) : Asks (fun o => if p then f o else o) (if p then bs else []) := by
  split
  · exact hf
  · exact .nothing

theorem eB_asks (c : UInt8) : Asks (fun o => eB o c) [c] := by
  intro o h
  dsimp only [eB]
  split
  next hlt =>
    rw [List.take_of_length_le]
    rw [List.length_append, List.length_singleton]
    omega
  next hfull =>
    have hlen : o.length = OBUF := by omega
    rw [← hlen, List.take_left]

theorem eS_asks : ∀ s : List UInt8, Asks (fun o => eS o s) s
  | [] => .nothing
  | c :: s => (eB_asks c).comp (eS_asks s)

theorem eNum_asks (v : Nat) : Asks (fun o => eNum o v) (numBytes v) := by
  unfold eNum numBytes
  split
  · exact eB_asks _
  · exact eS_asks _

theorem eCup_asks (row col : Nat) : Asks (fun o => eCup o row col) (cupBytes row col) :=
  ((((eS_asks _).comp (eNum_asks _)).comp (eB_asks _)).comp (eNum_asks _)).comp (eB_asks _)

theorem eSgr_asks (attr : UInt8) : Asks (fun o => eSgr o attr) (sgrBytes attr) :=
  (((((eS_asks _).comp (eNum_asks _)).comp (eB_asks _)).comp (eNum_asks _)).comp
    (Asks.ite (eS_asks _))).comp (eB_asks _)

/-! ## What a refill asks for -/

/-- The bytes of a cell, if it is sent. -/
def cellAsks (v : Nat → UInt8) (r : Render) : List UInt8 :=
  if cellSent v r then cellBytes v r else []

/-- The bytes of the loop of `frame_fill`. -/
def loopAsks (v : Nat → UInt8) : Nat → Render → List UInt8
  | 0, _ => []
  | fuel + 1, r =>
      if r.walkCell < r.totalCells then
        if r.obuf.length + 48 > OBUF then []
        else cellAsks v r ++ loopAsks v fuel (fillCell v r)
      else []

/-- The bytes of `frame_fill`. -/
def fillAsks (s : Screen) (r : Render) : List UInt8 :=
  let fuel := r.totalCells - r.walkCell
  let r' := fillLoop s.base fuel r
  loopAsks s.base fuel r ++
    if r'.walkCell ≥ r'.totalCells then
      frameTail s.cursorRow.toNat s.cursorCol.toNat s.cursorVisible else []

/-- The header of a frame. -/
def frameHead (clear : Bool) : List UInt8 :=
  [0x1B, 0x5B, 0x3F, 0x37, 0x6C, 0x1B, 0x5B, 0x3F, 0x32, 0x35, 0x6C] ++
    if clear then [0x1B, 0x5B, 0x32, 0x4A, 0x1B, 0x5B, 0x48] else []

/-- The bytes of `frame_decide`: a header, if it starts a frame. -/
def decideAsks (serial : Bool) (s : Screen) (r : Render) : List UInt8 :=
  if s.toobig then
    if r.forceKf || r.cadence s then frameHead true else []
  else if r.repaints serial s then frameHead (r.mustClear s)
  else if r.settled s then []
  else frameHead (r.mustClear s)

namespace Render

/-- What is handed to `e_b` before `frame_fill`. -/
def startAsks (serial : Bool) (s : Screen) (r : Render) : List UInt8 :=
  if r.frameActive then [] else decideAsks serial s { r with obuf := [], oOff := 0 }

/-- Everything that `render_next_byte` hands to `e_b` when it fills its buffer. -/
def asked (serial : Bool) (s : Screen) (r : Render) : List UInt8 :=
  r.startAsks serial s ++
    if (r.refilled serial s).frameActive then fillAsks s (r.refilled serial s) else []

end Render

theorem fillCell_take {v : Nat → UInt8} {r : Render} (h : r.obuf.length ≤ OBUF) :
    (fillCell v r).obuf = (r.obuf ++ cellAsks v r).take OBUF := by
  by_cases hsent : cellSent v r = true
  · have hcup := Asks.ite (p := (r.walkCell : Int) ≠ r.lastEmit + 1 ∨ r.walkCell % r.fCols = 0)
      (eCup_asks (r.walkCell / r.fCols) (r.walkCell % r.fCols))
    have hsgr := Asks.ite (p := ((v (r.walkCell * 2 + 1)).toNat : Int) ≠ r.curSgr)
      (eSgr_asks (v (r.walkCell * 2 + 1)))
    have hcell := ((hcup.comp hsgr).comp (eS_asks (charBytes (v (r.walkCell * 2))))) r.obuf h
    rw [cellAsks, if_pos hsent]
    rw [cellSent] at hsent
    rw [fillCell, if_pos hsent]
    exact hcell
  · rw [cellAsks, if_neg hsent, List.append_nil, List.take_of_length_le h]
    rw [cellSent] at hsent
    rw [fillCell, if_neg hsent]

theorem fillLoop_take (v : Nat → UInt8) : ∀ (fuel : Nat) {r : Render}, r.obuf.length ≤ OBUF →
    (fillLoop v fuel r).obuf = (r.obuf ++ loopAsks v fuel r).take OBUF
  | 0, r, h => by
      rw [loopAsks, List.append_nil, List.take_of_length_le h]
      rfl
  | fuel + 1, r, h => by
      rw [fillLoop, loopAsks]
      split
      · split
        · rw [List.append_nil, List.take_of_length_le h]
        · have hcell := fillCell_take (v := v) h
          have hle : (fillCell v r).obuf.length ≤ OBUF := by
            rw [hcell]
            exact List.length_take_le _ _
          rw [fillLoop_take v fuel hle, hcell, take_take_append, List.append_assoc]
      · rw [List.append_nil, List.take_of_length_le h]

theorem frameEnd_take (s : Screen) {r : Render} (h : r.obuf.length ≤ OBUF) :
    (frameEnd s r).obuf = (r.obuf ++
      frameTail s.cursorRow.toNat s.cursorCol.toNat s.cursorVisible).take OBUF := by
  rw [frameEnd_obuf]
  exact ((eCup_asks _ _).comp (eS_asks _)) r.obuf h

theorem frameFill_take (s : Screen) {r : Render} (h : r.obuf.length ≤ OBUF) :
    (frameFill s r).obuf = (r.obuf ++ fillAsks s r).take OBUF := by
  have hloop := fillLoop_take s.base (r.totalCells - r.walkCell) h
  have hle : (fillLoop s.base (r.totalCells - r.walkCell) r).obuf.length ≤ OBUF := by
    rw [hloop]
    exact List.length_take_le _ _
  unfold frameFill fillAsks
  dsimp only
  split
  · rw [frameEnd_take s hle, hloop, take_take_append, List.append_assoc]
  · rw [hloop, List.append_nil]

theorem frameStart_take (cols rows : Nat) (clear repaint : Bool) {r : Render}
    (h : r.obuf.length ≤ OBUF) :
    (frameStart cols rows clear repaint r).obuf = (r.obuf ++ frameHead clear).take OBUF :=
  ((eS_asks _).comp (Asks.ite (eS_asks _))) r.obuf h

theorem frameDecide_take (serial : Bool) (s : Screen) {r : Render} (h : r.obuf.length ≤ OBUF) :
    (frameDecide serial s r).obuf = (r.obuf ++ decideAsks serial s r).take OBUF := by
  rw [Render.frameDecide_eq]
  unfold decideAsks
  split
  · split
    · exact frameStart_take _ _ _ _ h
    · rw [List.append_nil, List.take_of_length_le h]
  · split
    · exact frameStart_take _ _ _ _ h
    · split
      · rw [List.append_nil, List.take_of_length_le h]
      · exact frameStart_take _ _ _ _ h

theorem refilled_take (serial : Bool) (s : Screen) (r : Render) :
    (r.refilled serial s).obuf = (r.startAsks serial s).take OBUF := by
  unfold Render.startAsks
  by_cases hact : r.frameActive = true
  · rw [Render.refilled_active serial s hact, if_pos hact]
    rfl
  · rw [Render.refilled_idle serial s (Bool.eq_false_iff.mpr hact), if_neg hact,
      frameDecide_take serial s (Nat.zero_le _), List.nil_append]

/-- The buffer holds the first `OBUF` bytes of what is asked for. -/
theorem renderRefill_take (serial : Bool) (s : Screen) (r : Render) :
    (renderRefill serial s r).obuf = (r.asked serial s).take OBUF := by
  have hstart := refilled_take serial s r
  have hle : (r.refilled serial s).obuf.length ≤ OBUF := by
    rw [hstart]
    exact List.length_take_le _ _
  rw [Render.renderRefill_eq, Render.asked]
  split
  · rw [frameFill_take s hle, hstart, take_take_append]
  · rw [hstart, List.append_nil]

/-! ## Room -/

/-- A frame of a size that `frame_decide` admits. -/
structure Admitted (r : Render) : Prop where
  cols_pos : 0 < r.fCols
  cols_le : r.fCols ≤ 132
  rows : ∃ rows ≤ 60, r.totalCells = r.fCols * rows

theorem fillCell_cols (v : Nat → UInt8) (r : Render) : (fillCell v r).fCols = r.fCols := by
  unfold fillCell
  dsimp only
  split <;> rfl

namespace Admitted

variable {r : Render}

theorem fillCell (h : Admitted r) (v : Nat → UInt8) : Admitted (fillCell v r) := by
  have hcols := fillCell_cols v r
  refine ⟨?_, ?_, ?_⟩
  · rw [hcols]
    exact h.cols_pos
  · rw [hcols]
    exact h.cols_le
  · rw [hcols, (fillCell_same v r).1.total]
    exact h.rows

theorem fillLoop (v : Nat → UInt8) : ∀ (fuel : Nat) {r : Render}, Admitted r →
    Admitted (fillLoop v fuel r)
  | 0, _, h => h
  | fuel + 1, r, h => by
      rw [Dossh.fillLoop]
      split
      · split
        · exact h
        · exact fillLoop v fuel (h.fillCell v)
      · exact h

theorem frameFill (h : Admitted r) (s : Screen) : Admitted (frameFill s r) := by
  have hloop := h.fillLoop s.base (r.totalCells - r.walkCell)
  unfold Dossh.frameFill
  dsimp only
  split
  · exact ⟨hloop.cols_pos, hloop.cols_le, hloop.rows⟩
  · exact hloop

theorem frameStart (s : Screen) (clear repaint : Bool) (r : Render) :
    Admitted (frameStart s.geomCols s.geomRows clear repaint r) := by
  obtain ⟨hpos, hcols, hrows⟩ := geom_bounds s
  exact ⟨hpos, hcols, s.geomRows, hrows, rfl⟩

theorem cell_le (h : Admitted r) (hlt : r.walkCell < r.totalCells) :
    r.walkCell / r.fCols ≤ 255 ∧ r.walkCell % r.fCols ≤ 255 := by
  obtain ⟨rows, hrows, htotal⟩ := h.rows
  rw [htotal] at hlt
  exact Dossh.cell_le h.cols_pos h.cols_le hrows hlt

theorem cellAsks_length (h : Admitted r) (v : Nat → UInt8) (hlt : r.walkCell < r.totalCells) :
    (cellAsks v r).length ≤ 25 := by
  unfold cellAsks
  split
  · exact cellBytes_length (h.cell_le hlt).1 (h.cell_le hlt).2
  · exact Nat.zero_le _

/-- The loop leaves room for the end of the frame. -/
theorem loopAsks_length (v : Nat → UInt8) : ∀ (fuel : Nat) {r : Render}, Admitted r →
    r.obuf.length + 23 ≤ OBUF → r.obuf.length + (loopAsks v fuel r).length + 23 ≤ OBUF
  | 0, _, _, hlen => hlen
  | fuel + 1, r, h, hlen => by
      rw [loopAsks]
      split
      next hlt =>
        split
        · exact hlen
        next hroom =>
          have hcell := h.cellAsks_length v hlt
          have hobuf : (Dossh.fillCell v r).obuf.length = r.obuf.length + (cellAsks v r).length := by
            rw [fillCell_take (by omega), List.take_of_length_le, List.length_append]
            rw [List.length_append]
            omega
          have ih := loopAsks_length v fuel (h.fillCell v) (by omega)
          rw [List.length_append]
          omega
      next => exact hlen

theorem fillAsks_length (h : Admitted r) (s : Screen) (hlen : r.obuf.length + 23 ≤ OBUF) :
    r.obuf.length + (fillAsks s r).length ≤ OBUF := by
  have hloop := loopAsks_length s.base (r.totalCells - r.walkCell) h hlen
  have htail : (frameTail s.cursorRow.toNat s.cursorCol.toNat s.cursorVisible).length ≤ 16 := by
    have hcup := cupBytes_length (byte_le s.cursorRow) (byte_le s.cursorCol)
    simp [frameTail]
    omega
  unfold fillAsks
  dsimp only
  rw [List.length_append]
  split
  · omega
  · rw [List.length_nil]
    omega

end Admitted

/-! ## Complete sequences -/

theorem whole_csi {params : List UInt8} {final : UInt8} (hparams : ∀ p ∈ params, 0x30 ≤ p ∧ p ≤ 0x3F)
    (hfinal : 0x40 ≤ final ∧ final ≤ 0x7E) : Whole (0x1B :: 0x5B :: (params ++ [final])) :=
  .csi hparams hfinal .nil

/-- The digits of a small number are parameter bytes. -/
theorem numBytes_params {v : Nat} (hv : v ≤ 256) : ∀ p ∈ numBytes v, 0x30 ≤ p ∧ p ≤ 0x3F := by
  intro p hp
  obtain ⟨hlow, hhigh⟩ := (numBytes_spec v hv).1 p hp
  exact ⟨hlow, UInt8.le_trans hhigh (by decide)⟩

theorem whole_cup {row col : Nat} (hr : row ≤ 255) (hc : col ≤ 255) : Whole (cupBytes row col) := by
  have heq : cupBytes row col =
      0x1B :: 0x5B :: ((numBytes (row + 1) ++ 0x3B :: numBytes (col + 1)) ++ [0x48]) := by
    simp [cupBytes]
  rw [heq]
  refine whole_csi (fun p hp => ?_) (by decide)
  rcases List.mem_append.mp hp with hp | hp
  · exact numBytes_params (by omega) p hp
  · rcases List.mem_cons.mp hp with rfl | hp
    · decide
    · exact numBytes_params (by omega) p hp

theorem whole_sgr (attr : UInt8) : Whole (sgrBytes attr) := by
  obtain ⟨hfg, hbg, -⟩ := attr_spec attr
  have heq : sgrBytes attr = 0x1B :: 0x5B :: ((0x30 :: 0x3B :: (numBytes (sgrFg attr) ++
      0x3B :: (numBytes (sgrBg attr) ++ if attr &&& 0x80 ≠ 0 then [0x3B, 0x35] else []))) ++
        [0x6D]) := by
    simp [sgrBytes]
  have hblink : ∀ p ∈ (if attr &&& 0x80 ≠ 0 then [0x3B, 0x35] else []),
      (0x30 : UInt8) ≤ p ∧ p ≤ 0x3F := by
    split
    · exact forall_mem_of_all (by decide)
    · exact List.forall_mem_nil _
  rw [heq]
  refine whole_csi (fun p hp => ?_) (by decide)
  simp only [List.mem_cons, List.mem_append] at hp
  rcases hp with rfl | rfl | hp | rfl | hp | hp
  · decide
  · decide
  · exact numBytes_params (by omega) p hp
  · decide
  · exact numBytes_params (by omega) p hp
  · exact hblink p hp

/-- The table holds the encoding of a printable character for each byte. -/
theorem charBytes_encode (ch : UInt8) :
    charBytes ch = String.utf8EncodeChar (Char.ofNat (glyphOf ch)) ∧
      0x20 ≤ (Char.ofNat (glyphOf ch)).toNat ∧ (Char.ofNat (glyphOf ch)).toNat ≠ 0x7F := by
  revert ch
  exact forall_byte (by decide +kernel)

theorem whole_char (ch : UInt8) : Whole (charBytes ch) := by
  obtain ⟨hbytes, hlow, hdel⟩ := charBytes_encode ch
  rw [hbytes, ← List.append_nil (String.utf8EncodeChar _)]
  exact .char _ hlow hdel .nil

theorem whole_ite {p : Prop} [Decidable p] {bs : List UInt8} (h : Whole bs) :
    Whole (if p then bs else []) := by
  split
  · exact h
  · exact .nil

theorem whole_cursor (on : Bool) : Whole [0x1B, 0x5B, 0x3F, 0x32, 0x35, if on then 0x68 else 0x6C] := by
  have hparams : ∀ p ∈ ([0x3F, 0x32, 0x35] : List UInt8), 0x30 ≤ p ∧ p ≤ 0x3F :=
    forall_mem_of_all (by decide)
  cases on with
  | true => exact whole_csi hparams (by decide)
  | false => exact whole_csi hparams (by decide)

theorem whole_tail {row col : Nat} (visible : Bool) (hr : row ≤ 255) (hc : col ≤ 255) :
    Whole (frameTail row col visible) :=
  (whole_cup hr hc).append (whole_cursor visible)

theorem whole_head (clear : Bool) : Whole (frameHead clear) := by
  have hwrap : ∀ p ∈ ([0x3F, 0x37] : List UInt8), 0x30 ≤ p ∧ p ≤ 0x3F :=
    forall_mem_of_all (by decide)
  have herase : ∀ p ∈ ([0x32] : List UInt8), 0x30 ≤ p ∧ p ≤ 0x3F := forall_mem_of_all (by decide)
  have hhome : ∀ p ∈ ([] : List UInt8), 0x30 ≤ p ∧ p ≤ 0x3F := nofun
  have hclear : Whole [0x1B, 0x5B, 0x32, 0x4A, 0x1B, 0x5B, 0x48] :=
    (whole_csi herase (by decide)).append (whole_csi hhome (by decide))
  exact ((whole_csi hwrap (by decide)).append (whole_cursor false)).append (whole_ite hclear)

theorem whole_decide (serial : Bool) (s : Screen) (r : Render) :
    Whole (decideAsks serial s r) := by
  unfold decideAsks
  split
  · exact whole_ite (whole_head true)
  · split
    · exact whole_head _
    · split
      · exact .nil
      · exact whole_head _

namespace Admitted

variable {r : Render}

theorem whole_cell (h : Admitted r) (v : Nat → UInt8) (hlt : r.walkCell < r.totalCells) :
    Whole (cellAsks v r) := by
  obtain ⟨hrow, hcol⟩ := h.cell_le hlt
  exact whole_ite (((whole_ite (whole_cup hrow hcol)).append (whole_ite (whole_sgr _))).append
    (whole_char _))

theorem whole_loop (v : Nat → UInt8) : ∀ (fuel : Nat) {r : Render}, Admitted r →
    Whole (loopAsks v fuel r)
  | 0, _, _ => .nil
  | fuel + 1, r, h => by
      rw [loopAsks]
      split
      next hlt =>
        split
        · exact .nil
        · exact (h.whole_cell v hlt).append (whole_loop v fuel (h.fillCell v))
      next => exact .nil

theorem whole_fill (h : Admitted r) (s : Screen) : Whole (fillAsks s r) :=
  (h.whole_loop s.base _).append
    (whole_ite (whole_tail _ (byte_le s.cursorRow) (byte_le s.cursorCol)))

end Admitted

/-! ## Reachable states -/

namespace Render

/-- The states between the calls of the functions of `render.c`. -/
inductive Reached : Render → Prop where
  | cold : Reached coldRender
  | reset {r : Render} (now : BitVec 32) (h : Reached r) : Reached (renderReset now r)
  | pushback {r : Render} (b : UInt8) (h : Reached r) : Reached (renderPushback b r)
  | next {r : Render} (serial : Bool) (s : Screen) (h : Reached r) :
      Reached (renderNextByte serial s r).2

variable {r : Render}

/-- A frame under way has an admitted size after a refill. -/
theorem refilled_admitted (h : r.frameActive = true → Admitted r) (serial : Bool) (s : Screen)
    (hactive : (r.refilled serial s).frameActive = true) : Admitted (r.refilled serial s) := by
  cases hact : r.frameActive with
  | true =>
      rw [refilled_active serial s hact]
      exact ⟨(h hact).cols_pos, (h hact).cols_le, (h hact).rows⟩
  | false =>
      rw [refilled_idle serial s hact] at hactive ⊢
      rcases frameDecide_cases serial s { r with obuf := [], oOff := 0 } with
        ⟨b, heq, -⟩ | ⟨clear, repaint, b, heal, heq, -⟩
      · rw [heq] at hactive
        exact absurd (hact.symm.trans hactive) Bool.false_ne_true
      · rw [heq]
        exact .frameStart s clear repaint _

theorem renderRefill_admitted (h : r.frameActive = true → Admitted r) (serial : Bool) (s : Screen)
    (hactive : (renderRefill serial s r).frameActive = true) :
    Admitted (renderRefill serial s r) := by
  rw [renderRefill_eq] at hactive ⊢
  split at hactive
  next hact =>
    rw [if_pos hact]
    exact (refilled_admitted h serial s hact).frameFill s
  next hidle => exact absurd hactive hidle

theorem Reached.admitted (h : r.Reached) : r.frameActive = true → Admitted r := by
  induction h with
  | cold => nofun
  | reset => nofun
  | pushback b _ ih => exact fun hact => ⟨(ih hact).cols_pos, (ih hact).cols_le, (ih hact).rows⟩
  | @next r serial s _ ih =>
      intro hact
      obtain ⟨off, heq⟩ := nextByte_state serial s r
      rw [heq] at hact ⊢
      split at hact
      next hr =>
        have hfill := renderRefill_admitted ih serial s hact
        rw [if_pos hr]
        exact ⟨hfill.cols_pos, hfill.cols_le, hfill.rows⟩
      next hr =>
        rw [if_neg hr]
        exact ⟨(ih hact).cols_pos, (ih hact).cols_le, (ih hact).rows⟩

theorem decideAsks_length (serial : Bool) (s : Screen) (r : Render) :
    (decideAsks serial s r).length ≤ 18 := by
  have hhead : ∀ clear, (frameHead clear).length ≤ 18 := by decide
  unfold decideAsks
  split
  · split
    · exact hhead true
    · exact Nat.zero_le _
  · split
    · exact hhead _
    · split
      · exact Nat.zero_le _
      · exact hhead _

theorem startAsks_length (serial : Bool) (s : Screen) (r : Render) :
    (r.startAsks serial s).length ≤ 18 := by
  unfold startAsks
  split
  · exact Nat.zero_le _
  · exact decideAsks_length serial s _

/-- The header, the cells and the end of a frame fit. -/
theorem asked_length (h : r.frameActive = true → Admitted r) (serial : Bool) (s : Screen) :
    (r.asked serial s).length ≤ OBUF := by
  have hstart := startAsks_length serial s r
  have hroom : (r.startAsks serial s).length + 23 ≤ OBUF := Nat.le_trans
    (Nat.add_le_add_right hstart 23) (by decide)
  have hobuf : (r.refilled serial s).obuf = r.startAsks serial s := by
    rw [refilled_take, List.take_of_length_le (Nat.le_of_add_right_le hroom)]
  unfold asked
  rw [List.length_append]
  split
  next hactive =>
    rw [← hobuf] at hroom ⊢
    exact (refilled_admitted h serial s hactive).fillAsks_length s hroom
  next => exact Nat.le_of_add_right_le hroom

theorem asked_whole (h : r.frameActive = true → Admitted r) (serial : Bool) (s : Screen) :
    Whole (r.asked serial s) := by
  have hstart : Whole (r.startAsks serial s) := by
    unfold startAsks
    split
    · exact .nil
    · exact whole_decide serial s _
  refine hstart.append ?_
  split
  next hactive => exact (refilled_admitted h serial s hactive).whole_fill s
  next => exact .nil

/-- Nothing is dropped. -/
theorem renderRefill_asked (h : r.frameActive = true → Admitted r) (serial : Bool) (s : Screen) :
    (renderRefill serial s r).obuf = r.asked serial s := by
  rw [renderRefill_take, List.take_of_length_le (asked_length h serial s)]

/-- A frame that is completed asks for its end. -/
theorem asked_tail (hactive : (r.refilled serial s).frameActive = true)
    (hdone : (renderRefill serial s r).frameActive = false) :
    frameTail s.cursorRow.toNat s.cursorCol.toNat s.cursorVisible <:+ r.asked serial s := by
  rw [asked, if_pos hactive]
  rw [renderRefill_eq, if_pos hactive] at hdone
  refine List.IsSuffix.trans ?_ (List.suffix_append _ _)
  generalize r.refilled serial s = r₁ at *
  obtain ⟨hsame, -⟩ := fillLoop_ends s.base (r₁.totalCells - r₁.walkCell) r₁ (by omega)
  unfold fillAsks
  unfold frameFill at hdone
  dsimp only at hdone ⊢
  split at hdone
  next hend =>
    rw [if_pos hend]
    exact List.suffix_append _ _
  next =>
    rw [hsame.active, hactive] at hdone
    cases hdone

theorem Reached.whole (h : r.Reached) : Whole r.obuf := by
  induction h with
  | cold => exact .nil
  | reset => exact .nil
  | pushback b _ ih => exact ih
  | @next r serial s hr ih =>
      obtain ⟨off, heq⟩ := nextByte_state serial s r
      rw [heq]
      show Whole (if r.refills = true then renderRefill serial s r else r).obuf
      split
      · rw [renderRefill_asked hr.admitted]
        exact asked_whole hr.admitted serial s
      · exact ih

end Render

/-- **Room in the output buffer.**  In every reachable state the buffer holds complete escape
sequences and characters.  A refill drops none of the bytes that it hands to `e_b`, and a frame that
it completes ends with all of its tail. -/
theorem buffer_never_truncates {r : Render} (h : r.Reached) (serial : Bool) (s : Screen) :
    Whole r.obuf ∧ (r.asked serial s).length ≤ OBUF ∧
      (renderRefill serial s r).obuf = r.asked serial s ∧ Whole (renderRefill serial s r).obuf ∧
      ((r.refilled serial s).frameActive = true → (renderRefill serial s r).frameActive = false →
        frameTail s.cursorRow.toNat s.cursorCol.toNat s.cursorVisible <:+
          (renderRefill serial s r).obuf) := by
  have hasked := Render.renderRefill_asked h.admitted serial s
  refine ⟨h.whole, Render.asked_length h.admitted serial s, hasked, ?_, fun hactive hdone => ?_⟩
  · rw [hasked]
    exact Render.asked_whole h.admitted serial s
  · rw [hasked]
    exact Render.asked_tail hactive hdone

theorem buffer_never_truncates_cold :
    (renderRefill true tinyScreen coldRender).obuf = coldRender.asked true tinyScreen ∧
      frameTail 0 1 true <:+ (renderRefill true tinyScreen coldRender).obuf := by
  obtain ⟨-, -, hasked, -, htail⟩ := buffer_never_truncates .cold true tinyScreen
  exact ⟨hasked, htail (by decide +kernel) (by decide +kernel)⟩

end Dossh
