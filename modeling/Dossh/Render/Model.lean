import Dossh.Machine
import Dossh.Render.Cp437

/-!
# The screen renderer

`render.c` turns the video memory into a stream of ANSI bytes.  `Screen` is what
one call reads from outside: the BIOS data area, the two candidate text buffers
and the tick counter.  The renderer runs inside the timer interrupt, so one call
sees one `Screen`.  `Render` is the state between calls; the filled part
`obuf[0..o_len)` of the output buffer is a list.
-/

namespace Dossh

/-! ## The screen -/

/-- What a call reads: BIOS data area bytes, text memory and ticks. -/
structure Screen where
  /-- `0040:004A`. -/
  cols : UInt8
  /-- `0040:0084`, the rows less one. -/
  rowsLess1 : UInt8
  /-- `0040:0049`. -/
  mode : UInt8
  b000 : Nat → UInt8
  b800 : Nat → UInt8
  /-- `0040:0050`. -/
  cursorCol : UInt8
  /-- `0040:0051`. -/
  cursorRow : UInt8
  /-- `0040:0061`, the start scanline of the cursor. -/
  cursorStart : UInt8
  ticks : BitVec 32

/-- `scr_cols` with the fallback of `frame_decide`. -/
def Screen.geomCols (s : Screen) : Nat :=
  if s.cols.toNat = 0 ∨ s.cols.toNat > 132 then 80 else s.cols.toNat

/-- `scr_rows` with the fallback of `frame_decide`. -/
def Screen.geomRows (s : Screen) : Nat :=
  if s.rowsLess1.toNat + 1 = 0 ∨ s.rowsLess1.toNat + 1 > 60 then 25 else s.rowsLess1.toNat + 1

/-- `scr_base`. -/
def Screen.base (s : Screen) : Nat → UInt8 := if s.mode = 7 then s.b000 else s.b800

/-- `cursor_visible`. -/
def Screen.cursorVisible (s : Screen) : Bool := s.cursorStart &&& 0x20 = 0

/-! ## Emit helpers -/

def OBUF : Nat := 2048
def SHADOW_BYTES : Nat := 4000
def CADENCE_TICKS : Int := 36
def HEAL_TICKS : Int := 72

/-- `e_b`: a full buffer drops the byte. -/
def eB (o : List UInt8) (c : UInt8) : List UInt8 := if o.length < OBUF then o ++ [c] else o

/-- `e_s`. -/
def eS (o : List UInt8) (s : List UInt8) : List UInt8 := s.foldl eB o

/-- The digits of `v`, most significant first; `fuel` is the size of `t`. -/
def numDigits : Nat → Nat → List UInt8 → List UInt8
  | 0, _, t => t
  | fuel + 1, v, t =>
      if v = 0 then t else numDigits fuel (v / 10) (UInt8.ofNat (0x30 + v % 10) :: t)

/-- `e_num`. -/
def eNum (o : List UInt8) (v : Nat) : List UInt8 :=
  if v = 0 then eB o 0x30 else eS o (numDigits 6 v [])

/-- `e_cup`: `ESC [ row ; col H`. -/
def eCup (o : List UInt8) (row col : Nat) : List UInt8 :=
  let o := eS o [0x1B, 0x5B]
  let o := eNum o (row + 1)
  let o := eB o 0x3B
  let o := eNum o (col + 1)
  eB o 0x48

/-- `v2a`: the ANSI number of a VGA colour. -/
def v2a : List Nat := [0, 4, 2, 6, 1, 5, 3, 7]

/-- The SGR parameter of the foreground of an attribute. -/
def sgrFg (attr : UInt8) : Nat :=
  let fg := (attr &&& 0x0F).toNat
  if fg < 8 then 30 + v2a.getD fg 0 else 90 + v2a.getD (fg - 8) 0

/-- The SGR parameter of the background of an attribute. -/
def sgrBg (attr : UInt8) : Nat := 40 + v2a.getD ((attr >>> 4) &&& 0x07).toNat 0

/-- `e_sgr`: `ESC [ 0 ; fg ; bg m`, with `; 5` for the blink bit. -/
def eSgr (o : List UInt8) (attr : UInt8) : List UInt8 :=
  let o := eS o [0x1B, 0x5B, 0x30, 0x3B]
  let o := eNum o (sgrFg attr)
  let o := eB o 0x3B
  let o := eNum o (sgrBg attr)
  let o := if attr &&& 0x80 ≠ 0 then eS o [0x3B, 0x35] else o
  eB o 0x6D

/-- The bytes of a character: the row of the table up to its length. -/
def charBytes (ch : UInt8) : List UInt8 :=
  let u := cp437Utf8.getD ch.toNat []
  (u.drop 1).take (u.headD 0).toNat

/-- `e_char`. -/
def eChar (o : List UInt8) (ch : UInt8) : List UInt8 := eS o (charBytes ch)

/-! ## Frames -/

/-- The state of `render.c`. -/
structure Render where
  obuf : List UInt8
  oOff : Nat
  pushed : Option UInt8
  shadow : Nat → UInt8
  shadowValid : Bool
  shCols : Nat
  shRows : Nat
  forceKf : Bool
  lastKf : BitVec 32
  healKf : BitVec 32
  frameActive : Bool
  isRepaint : Bool
  isToobig : Bool
  walkCell : Nat
  totalCells : Nat
  fCols : Nat
  lastEmit : Int
  curSgr : Int
  lastCurR : UInt8
  lastCurC : UInt8

/-- `render_reset`. -/
def renderReset (now : BitVec 32) (r : Render) : Render :=
  { r with
    shadowValid := false, forceKf := true, frameActive := false, obuf := [], oOff := 0
    pushed := none, curSgr := -1, lastEmit := -2, lastCurR := 255, lastCurC := 255, healKf := now }

/-- A cell of the video memory differs from the shadow. -/
def cellChanged (v shadow : Nat → UInt8) (c : Nat) : Bool :=
  v (c * 2) ≠ shadow (c * 2) || v (c * 2 + 1) ≠ shadow (c * 2 + 1)

/-- The end of `frame_decide`: the frame starts. -/
def frameStart (cols rows : Nat) (clear repaint : Bool) (r : Render) : Render :=
  let o := eS r.obuf [0x1B, 0x5B, 0x3F, 0x37, 0x6C, 0x1B, 0x5B, 0x3F, 0x32, 0x35, 0x6C]
  let o := if clear then eS o [0x1B, 0x5B, 0x32, 0x4A, 0x1B, 0x5B, 0x48] else o
  { r with
    fCols := cols, totalCells := cols * rows, isRepaint := repaint, walkCell := 0
    lastEmit := -2, curSgr := -1, frameActive := true, obuf := o
    shCols := if repaint then cols else r.shCols
    shRows := if repaint then rows else r.shRows }

/-- `frame_decide`. -/
def frameDecide (serial : Bool) (s : Screen) (r : Render) : Render :=
  let cols := s.geomCols
  let rows := s.geomRows
  let bytes := cols * rows * 2
  let v := s.base
  let now := s.ticks
  let toobig := bytes > SHADOW_BYTES
  let r := { r with isToobig := toobig }
  let clear := r.forceKf || !r.shadowValid || cols ≠ r.shCols || rows ≠ r.shRows
  let repaint := clear || (CADENCE_TICKS ≤ (now - r.lastKf).toInt &&
    (serial || (now - r.healKf).toInt < HEAL_TICKS))
  let full := r.forceKf || CADENCE_TICKS ≤ (now - r.lastKf).toInt
  -- a mode too large for the shadow has full frames only
  if toobig then
    if full then frameStart cols rows true true r else r
  else if repaint then frameStart cols rows clear true r
  else
    let changed := (List.range (cols * rows)).countP (cellChanged v r.shadow)
    if changed = 0 ∧ s.cursorRow = r.lastCurR ∧ s.cursorCol = r.lastCurC then r
    else
      let r := { r with healKf := if changed ≠ 0 then now else r.healKf }
      frameStart cols rows clear (changed * 4 > bytes / 2 * 3) r

/-- One turn of the loop of `frame_fill`. -/
def fillCell (v : Nat → UInt8) (r : Render) : Render :=
  let c := r.walkCell
  let ch := v (c * 2)
  let attr := v (c * 2 + 1)
  if r.isRepaint || r.isToobig || cellChanged v r.shadow c then
    let o := r.obuf
    let o := if (c : Int) ≠ r.lastEmit + 1 ∨ c % r.fCols = 0 then eCup o (c / r.fCols) (c % r.fCols)
      else o
    let o := if (attr.toNat : Int) ≠ r.curSgr then eSgr o attr else o
    { r with
      obuf := eChar o ch
      curSgr := attr.toNat
      shadow := if r.isToobig then r.shadow
        else Function.update (Function.update r.shadow (c * 2) ch) (c * 2 + 1) attr
      lastEmit := c
      walkCell := c + 1 }
  else { r with walkCell := c + 1 }

/-- The loop of `frame_fill`: stop when the buffer is nearly full. -/
def fillLoop (v : Nat → UInt8) : Nat → Render → Render
  | 0, r => r
  | fuel + 1, r =>
      if r.walkCell < r.totalCells then
        if r.obuf.length + 48 > OBUF then r else fillLoop v fuel (fillCell v r)
      else r

/-- The end of a frame: park the cursor. -/
def frameEnd (s : Screen) (r : Render) : Render :=
  let o := eCup r.obuf s.cursorRow.toNat s.cursorCol.toNat
  let o := if s.cursorVisible then eS o [0x1B, 0x5B, 0x3F, 0x32, 0x35, 0x68]
    else eS o [0x1B, 0x5B, 0x3F, 0x32, 0x35, 0x6C]
  { r with
    obuf := o, lastCurR := s.cursorRow, lastCurC := s.cursorCol, frameActive := false
    shadowValid := if r.isToobig then r.shadowValid else true
    forceKf := if r.isRepaint then false else r.forceKf
    lastKf := if r.isRepaint || r.isToobig then s.ticks else r.lastKf }

/-- `frame_fill`. -/
def frameFill (s : Screen) (r : Render) : Render :=
  let r := fillLoop s.base (r.totalCells - r.walkCell) r
  if r.walkCell ≥ r.totalCells then frameEnd s r else r

/-- The two reads of the output buffer in `render_next_byte`. -/
def obufNext (r : Render) : Option UInt8 × Render :=
  if r.oOff < r.obuf.length then (r.obuf[r.oOff]?, { r with oOff := r.oOff + 1 })
  else (none, r)

/-- The refill of `render_next_byte`. -/
def renderRefill (serial : Bool) (s : Screen) (r : Render) : Render :=
  let r := { r with obuf := [], oOff := 0 }
  let r := if r.frameActive then r else frameDecide serial s r
  if r.frameActive then frameFill s r else r

/-- `render_next_byte`; `none` is the `-1` of the source. -/
def renderNextByte (serial : Bool) (s : Screen) (r : Render) : Option UInt8 × Render :=
  match r.pushed with
  | some b => (some b, { r with pushed := none })
  | none =>
      if r.oOff < r.obuf.length then obufNext r
      else obufNext (renderRefill serial s r)

/-- `render_pushback`. -/
def renderPushback (b : UInt8) (r : Render) : Render := { r with pushed := some b }

/-- A screen of one line with two cells, white on black. -/
def tinyScreen : Screen where
  cols := 2
  rowsLess1 := 0
  mode := 3
  b000 := fun _ => 0
  b800 := fun k => if k % 2 = 0 then 0xB0 else 0x07
  cursorCol := 1
  cursorRow := 0
  cursorStart := 6
  ticks := 5

/-- The renderer as the loader leaves it. -/
def coldRender : Render where
  obuf := []
  oOff := 0
  pushed := none
  shadow := fun _ => 0
  shadowValid := false
  shCols := 0
  shRows := 0
  forceKf := true
  lastKf := 0
  healKf := 0
  frameActive := false
  isRepaint := false
  isToobig := false
  walkCell := 0
  totalCells := 0
  fCols := 0
  lastEmit := 0
  curSgr := 0
  lastCurR := 255
  lastCurC := 255

end Dossh
