import Mathlib.Data.List.FinRange
import Dossh.Machine
import Dossh.Lib.Ring

/-!
# The state of the network stack

`net.c` serves up to `NCONN` TCP connections from one array of slots.  The
number of slots is a parameter `n` here: the telnet build has three and the SSH
build two.

Three things are added to the state of the source and read only by statements.
A slot counts the connections it has carried (`Conn.gen`), so that a
connection is named by its slot and that number.  It remembers the end of the
sequence space it has transmitted (`Conn.sndMax`).  And the stack keeps a
history of what it did, newest first (`Net.log`).  The packets it hands to the
driver are part of that history.

Left out are the observability counters (`g_rx_frames`, `g_arp_replies`,
`g_tcp_segs`), which nothing reads, and the guard `sending`, which is only
entered from an interrupt inside the driver's send.
-/

namespace Dossh

/-! ## Constants -/

def SND_SZ : Nat := 4096
def RCV_SZ : Nat := 512
def MSS_TX : Nat := 1400
def REXMIT_TICKS : BitVec 32 := 9
def MAX_REXMIT : Nat := 24
def WORK_SZ : Nat := 1600

/-! ## Connections -/

/-- `TS_LISTEN`, `TS_SYNRCVD`, `TS_ESTAB`. -/
inductive TState where
  | listen
  | synrcvd
  | estab
deriving DecidableEq, Repr

/-- `struct conn`, with the number of connections the slot has carried and the
end of the sequence space transmitted. -/
structure Conn where
  tstate : TState
  peerMac : List UInt8
  peerIp : List UInt8
  peerPort : Nat
  sndUna : BitVec 32
  sndNxt : BitVec 32
  rcvNxt : BitVec 32
  sbuf : Nat → UInt8
  sUna : Nat
  sNxt : Nat
  sEnd : Nat
  rbuf : Nat → UInt8
  rHead : Nat
  rTail : Nat
  rexmitAt : BitVec 32
  rexmitCount : Nat
  justEstab : Bool
  ready : Bool
  gen : Nat
  sndMax : BitVec 32

/-- `used = (s_end - s_una) & SND_MASK`. -/
def Conn.used (c : Conn) : Nat := Ring.dist SND_SZ c.sEnd c.sUna

/-- `unsent = (s_end - s_nxt) & SND_MASK`. -/
def Conn.unsent (c : Conn) : Nat := Ring.dist SND_SZ c.sEnd c.sNxt

/-- A slot of `conns` before anything was stored in it. -/
def Conn.zero : Conn where
  tstate := .listen
  peerMac := List.replicate 6 0
  peerIp := List.replicate 4 0
  peerPort := 0
  sndUna := 0
  sndNxt := 0
  rcvNxt := 0
  sbuf := fun _ => 0
  sUna := 0
  sNxt := 0
  sEnd := 0
  rbuf := fun _ => 0
  rHead := 0
  rTail := 0
  rexmitAt := 0
  rexmitCount := 0
  justEstab := false
  ready := false
  gen := 0
  sndMax := 0

/-- A TCP segment, before its checksums. -/
structure Seg where
  dstMac : List UInt8
  dstIp : List UInt8
  dstPort : Nat
  seq : BitVec 32
  ack : BitVec 32
  flags : UInt8
  window : Nat
  mss : Bool
  data : List UInt8
deriving DecidableEq, Repr

/-! ## The history -/

/-- Who appended a byte to a send ring: the broadcast of the screen
(`net_tx_putc`) or the framing code of one slot (`net_tx_putc_slot`). -/
inductive TxKind where
  | screen
  | unicast
deriving DecidableEq, Repr

/-- What the stack did.  A connection is a slot and its generation. -/
inductive NetEvent (n : Nat) where
  /-- A fresh SYN took the slot. -/
  | syn (i : Fin n) (gen : Nat) (iss : BitVec 32)
  /-- The slot entered `ESTAB` with `snd_una = una`. -/
  | estab (i : Fin n) (gen : Nat) (una : BitVec 32)
  /-- The slot was admitted to the broadcast (`net_slot_ready(i, 1)`). -/
  | admitted (i : Fin n) (gen : Nat)
  /-- A byte was appended to the send ring. -/
  | append (kind : TxKind) (i : Fin n) (gen : Nat) (b : UInt8)
  /-- The retransmit timer of the slot expired. -/
  | expire (i : Fin n) (gen : Nat)
  /-- A segment of the connection went to the driver, with its IP id. -/
  | seg (i : Fin n) (gen : Nat) (ipId : Nat) (s : Seg)
  /-- The refusal of a SYN went to the driver. -/
  | refuse (ipId : Nat) (s : Seg)
  /-- An ARP reply went to the driver. -/
  | arp (frame : List UInt8)

/-- The state of `net.c`. -/
structure Net (n : Nat) where
  gMac : List UInt8
  gIp : List UInt8
  myPort : Nat
  gIpId : Nat
  conns : Fin n → Conn
  work : Nat → UInt8
  log : List (NetEvent n)

namespace Net

variable {n : Nat}

/-- Replace one slot. -/
def set (net : Net n) (i : Fin n) (c : Conn) : Net n :=
  { net with conns := Function.update net.conns i c }

/-- Record an event. -/
def note (net : Net n) (e : NetEvent n) : Net n := { net with log := e :: net.log }

@[simp] theorem set_conns_self (net : Net n) (i : Fin n) (c : Conn) :
    (net.set i c).conns i = c := by simp [set]

@[simp] theorem set_conns_ne (net : Net n) {i j : Fin n} (c : Conn) (h : j ≠ i) :
    (net.set i c).conns j = net.conns j := by simp [set, h]

theorem set_conns (net : Net n) (i j : Fin n) (c : Conn) :
    (net.set i c).conns j = if j = i then c else net.conns j := by
  simp only [set, Function.update_apply]

@[simp] theorem set_log (net : Net n) (i : Fin n) (c : Conn) : (net.set i c).log = net.log := rfl

@[simp] theorem note_conns (net : Net n) (e : NetEvent n) : (net.note e).conns = net.conns := rfl

@[simp] theorem note_log (net : Net n) (e : NetEvent n) : (net.note e).log = e :: net.log := rfl

end Net

/-- The bytes appended to the send ring of connection `gen` of slot `i`, oldest
first. -/
def streamOf {n : Nat} (i : Fin n) (gen : Nat) : List (NetEvent n) → List UInt8
  | [] => []
  | .append _ j g b :: past =>
      if j = i ∧ g = gen then streamOf i gen past ++ [b] else streamOf i gen past
  | _ :: past => streamOf i gen past
termination_by structural log => log

end Dossh
