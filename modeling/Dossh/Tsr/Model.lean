import Mathlib.Algebra.Order.Ring.Nat
import Mathlib.Logic.Function.Basic

/-!
# Staying resident

DOSSHD stays in memory behind two interrupt vectors and a receiver in the packet driver, and
`DOSSHD /U` takes it out again.  Other resident programs hook the same vectors before and after.
Here a program is the list of DOS and packet-driver calls that it makes (`DosCall`): interrupts come
between any two of them, so what must hold for an interrupt must hold after each call.

Of the other programs it is assumed that they keep to the rules of resident programs: their handlers
lie in their own memory, they pass on the calls that are not for them, and they put a vector back
only when it still is theirs.
-/

namespace Dossh

/-! ## Memory -/

/-- The vectors that DOSSHD hooks, INT 1Ch and INT 2Fh. -/
inductive Vec where
  | tick
  | mpx
deriving DecidableEq, Repr

/-- A far pointer. -/
structure FarPtr where
  seg : Nat
  off : Nat
deriving DecidableEq, Repr

/-- `struct resident_state` without `magic`. -/
structure ResidentState where
  psp : Nat
  mode : Bool
  pktInt : Nat
  pktHandle : Nat
  old : Vec → FarPtr

/-- Another resident program: its handlers, the vectors it found, and what it answers in CX:DX when
it is asked for the multiplex id of DOSSHD, if it takes the id for its own. -/
structure Tsr where
  hooks : Vec → Option FarPtr
  old : Vec → FarPtr
  reply : Option FarPtr

/-- What lies in a memory block.  The `state` of a DOSSHD that has not set it yet is `none`. -/
inductive Program where
  | dosshd (state : Option ResidentState)
  | tsr (t : Tsr)
  | data

/-- A block of DOS memory: the segment of its program, its paragraphs, and what lies there. -/
structure Block where
  psp : Nat
  paras : Nat
  program : Program

/-- Where the parts of DOSSHD lie in its memory: `tick_isr`, `mpx_isr`, `state` and
`pkt_receiver`. -/
structure Image where
  isr : Vec → FarPtr
  state : FarPtr
  receiver : FarPtr

/-- A part of a program that was loaded at `psp`. -/
def FarPtr.loaded (p : FarPtr) (psp : Nat) : FarPtr := ⟨psp + p.seg, p.off⟩

/-- What never changes: the layout of DOSSHD, and the handlers of BIOS and DOS. -/
structure Pc where
  image : Image
  base : Vec → FarPtr

/-- The vectors, the packet drivers with the handles they gave out and the receivers behind them, and
the memory blocks in use. -/
structure Machine where
  ivt : Vec → FarPtr
  drv : Nat → Option (List (Nat × FarPtr))
  blocks : List Block

/-- The segment lies in the block. -/
def Block.Covers (b : Block) (seg : Nat) : Prop := b.psp ≤ seg ∧ seg < b.psp + b.paras

/-! ## Calls -/

inductive DosCall where
  /-- DOS gives memory. -/
  | alloc (b : Block)
  /-- `_dos_freemem`, and what DOS does to the memory of a program that ends. -/
  | freemem (psp : Nat)
  /-- `state` is filled in. -/
  | store (psp : Nat) (st : ResidentState)
  /-- `_dos_setvect`. -/
  | setvect (v : Vec) (p : FarPtr)
  /-- `access_type` of the packet driver at an interrupt, and the handle it gives. -/
  | accessType (int handle : Nat) (rcv : FarPtr)
  /-- `release_type`. -/
  | releaseType (int handle : Nat)
  /-- A packet driver comes or goes. -/
  | driver (int : Nat) (handles : Option (List (Nat × FarPtr)))

namespace Machine

def call (m : Machine) : DosCall → Machine
  | .alloc b => { m with blocks := b :: m.blocks }
  | .freemem psp => { m with blocks := m.blocks.filter fun b => b.psp ≠ psp }
  | .store psp st => { m with blocks := m.blocks.map fun b =>
      if b.psp = psp then { b with program := .dosshd (some st) } else b }
  | .setvect v p => { m with ivt := Function.update m.ivt v p }
  | .accessType int handle rcv =>
      { m with drv := Function.update m.drv int ((m.drv int).map ((handle, rcv) :: ·)) }
  | .releaseType int handle =>
      { m with drv := Function.update m.drv int ((m.drv int).map (·.filter fun h => h.1 ≠ handle)) }
  | .driver int handles => { m with drv := Function.update m.drv int handles }

def run (m : Machine) (calls : List DosCall) : Machine := calls.foldl call m

end Machine

/-! ## Interrupts -/

/-- The handler of a program at `psp` for a vector. -/
def Program.handler (pc : Pc) (v : Vec) (psp : Nat) : Program → Option FarPtr
  | .dosshd (some _) => some ((pc.image.isr v).loaded psp)
  | .dosshd none => none
  | .tsr t => t.hooks v
  | .data => none

/-- The vector a program found. -/
def Program.old (v : Vec) : Program → Option FarPtr
  | .dosshd (some st) => some (st.old v)
  | .dosshd none => none
  | .tsr t => some (t.old v)
  | .data => none

def Block.handler (pc : Pc) (v : Vec) (b : Block) : Option FarPtr := b.program.handler pc v b.psp

/-- The block whose handler for `v` is at `p`. -/
def Machine.handlerAt (pc : Pc) (m : Machine) (v : Vec) (p : FarPtr) : Option Block :=
  m.blocks.find? fun b => decide (b.handler pc v = some p)

/-- To where the handler at `p` passes a call on. -/
def Machine.link (pc : Pc) (m : Machine) (v : Vec) (p : FarPtr) : Option FarPtr :=
  (m.handlerAt pc v p).bind fun b => b.program.old v

/-- AL and CX:DX after INT 2Fh with the multiplex id, called at `p` with zeros in these registers.
`none` is a jump to where no handler is.  A call visits every block at most once. -/
def Machine.mpxCall (pc : Pc) (m : Machine) : Nat → FarPtr → Option (UInt8 × FarPtr)
  | 0, _ => none
  | fuel + 1, p =>
      if p = pc.base .mpx then some (0, ⟨0, 0⟩)
      else match m.handlerAt pc .mpx p with
        | none => none
        | some b =>
            match b.program with
            | .dosshd _ => some (0xFF, pc.image.state.loaded b.psp)   -- `mpx_isr`
            | .tsr t =>
                match t.reply with
                | some r => some (0xFF, r)
                | none => m.mpxCall pc fuel (t.old .mpx)
            | .data => none

/-- `struct resident_state` with the right `magic` at `p`. -/
def Machine.stateAt (pc : Pc) (m : Machine) (p : FarPtr) : Option ResidentState :=
  m.blocks.findSome? fun b =>
    match b.program with
    | .dosshd (some st) => if pc.image.state.loaded b.psp = p then some st else none
    | _ => none

/-! ## The program -/

/-- The results of `find_resident`. -/
inductive Found where
  | absent
  | conflict
  | resident (st : ResidentState)

/-- `find_resident`. -/
def findResident (pc : Pc) (m : Machine) : Found :=
  match m.mpxCall pc (m.blocks.length + 1) (m.ivt .mpx) with
  | none => .absent
  | some (al, p) =>
      if al ≠ 0xFF then .absent
      else if p ≠ ⟨0, 0⟩ then
        match m.stateAt pc p with
        | some st => .resident st
        | none => .conflict
      else .conflict

/-- `block_paras`, from the MCB. -/
def blockParas (m : Machine) (psp : Nat) : Nat :=
  ((m.blocks.find? fun b => b.psp = psp).map Block.paras).getD 0

/-- `pkt_find`. -/
def pktFind (m : Machine) : Option Nat := (List.range' 0x60 31).find? fun v => (m.drv v).isSome

/-- Where DOS puts a program, and its environment if it has one: segment and paragraphs. -/
structure Exec where
  psp : Nat
  paras : Nat
  env : Option (Nat × Nat)

/-- How DOSSHD was started: `g_net`, and what `access_type` answers. -/
structure Start extends Exec where
  net : Bool
  grant : Option Nat

/-- The block of the environment. -/
def Exec.envBlocks (e : Exec) : List Block := e.env.toList.map fun env => ⟨env.1, env.2, .data⟩

/-- DOS loads a copy of DOSSHD. -/
def Exec.load (e : Exec) : List DosCall :=
  e.envBlocks.map .alloc ++ [.alloc ⟨e.psp, e.paras, .dosshd none⟩]

/-- The environment is freed, if there is one. -/
def Exec.freeEnv (e : Exec) : List DosCall := e.envBlocks.map fun b => .freemem b.psp

/-- DOS takes the memory of a program back. -/
def Exec.exit (e : Exec) : List DosCall := e.freeEnv ++ [.freemem e.psp]

/-- What `install` writes to `state`. -/
def Start.state (s : Start) (m : Machine) (int handle : Nat) : ResidentState :=
  { psp := s.psp, mode := s.net, pktInt := int, pktHandle := handle, old := m.ivt }

/-- The second half of `install`: the transport is open. -/
def Start.stay (pc : Pc) (s : Start) (m : Machine) (int handle : Nat) : List DosCall :=
  [.store s.psp (s.state m int handle),
    .setvect .mpx ((pc.image.isr .mpx).loaded s.psp),
    .setvect .tick ((pc.image.isr .tick).loaded s.psp)] ++ s.freeEnv

/-- The calls of `install`, and its result. -/
def install (pc : Pc) (m : Machine) (s : Start) : Nat × List DosCall :=
  if s.net then
    -- `net_open`
    match pktFind m, s.grant with
    | some int, some handle =>
        (0, .accessType int handle (pc.image.receiver.loaded s.psp) :: s.stay pc m int handle)
    | _, _ => (1, s.exit)
  else (0, s.stay pc m 0 0)

/-- The calls of `uninstall` and its result. -/
def uninstall (pc : Pc) (m : Machine) : Nat × List DosCall :=
  match findResident pc m with
  | .absent => (1, [])
  | .conflict => (1, [])
  | .resident st =>
      let rpsp := st.psp
      let rend := (rpsp + blockParas m rpsp) % 2 ^ 16
      let seg1c := (m.ivt .tick).seg
      let seg2f := (m.ivt .mpx).seg
      if seg1c < rpsp ∨ rend ≤ seg1c ∨ seg2f < rpsp ∨ rend ≤ seg2f then (1, [])
      else
        (0, [.setvect .tick (st.old .tick), .setvect .mpx (st.old .mpx)] ++
          (if st.mode then [.releaseType st.pktInt st.pktHandle] else []) ++ [.freemem rpsp])

/-- `main` without `/U` and `/S`. -/
def dosshdMain (pc : Pc) (m : Machine) (s : Start) : Nat × List DosCall :=
  match findResident pc m with
  | .resident _ => (1, s.exit)
  | .conflict => (1, s.exit)
  | .absent => install pc m s

end Dossh
