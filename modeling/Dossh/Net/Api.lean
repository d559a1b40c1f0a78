import Dossh.Net.Tcp

/-!
# The link interface

The functions of `net.c` that the framing code calls, and the runs of the stack:
any sequence of those calls with any frames and any tick values.
-/

namespace Dossh

variable {n : Nat}

/-- Some slot is `ESTAB`. -/
def netConnected (net : Net n) : Bool :=
  (List.finRange n).any fun i => (net.conns i).tstate = .estab

/-- `net_take_new_slot`. -/
def netTakeNewSlot (net : Net n) : Option (Fin n) × Net n :=
  match (List.finRange n).find? fun i => (net.conns i).justEstab with
  | some i => (some i, net.set i { net.conns i with justEstab := false })
  | none => (none, net)

/-- Append one byte to the send ring of slot `i`. -/
def ringAppend (kind : TxKind) (net : Net n) (i : Fin n) (b : UInt8) : Net n :=
  let c := net.conns i
  (net.note (.append kind i c.gen b)).set i
    { c with sbuf := Function.update c.sbuf c.sEnd b, sEnd := (c.sEnd + 1) % SND_SZ }

/-- The slot takes part in the broadcast. -/
def Conn.admitted (c : Conn) : Bool := c.tstate = .estab && c.ready

/-- The first loop of `net_tx_putc`: drop dead full slots, stop at a slow one.
The flag is false where the source returns 0. -/
def putcCheck : List (Fin n) → Net n → Bool × Net n
  | [], net => (true, net)
  | i :: is, net =>
      let c := net.conns i
      if c.admitted && c.used ≥ SND_SZ - 1 then
        if c.rexmitCount > 0 then putcCheck is (net.set i (tcpResetListen c))
        else (false, net)
      else putcCheck is net
termination_by structural is => is

/-- The second loop of `net_tx_putc`. -/
def putcAppend (b : UInt8) (net : Net n) (i : Fin n) : Net n :=
  if (net.conns i).admitted then ringAppend .screen net i b else net

/-- `net_tx_putc`: append to every admitted slot or to none. -/
def netTxPutc (net : Net n) (b : UInt8) : Bool × Net n :=
  let r := putcCheck (List.finRange n) net
  if r.1 then (true, (List.finRange n).foldl (putcAppend b) r.2) else (false, r.2)

/-- `net_slot_ready`. -/
def netSlotReady (net : Net n) (i : Fin n) (v : Bool) : Net n :=
  let c := net.conns i
  let net := if v then net.note (.admitted i c.gen) else net
  net.set i { c with ready := v }

/-- `net_slot_drop`. -/
def netSlotDrop (net : Net n) (i : Fin n) : Net n :=
  let net := if (net.conns i).tstate = .estab then tcpSendSeg net i 0x14 false 0 0 else net
  net.set i (tcpResetListen (net.conns i))

/-- `net_tx_putc_slot`. -/
def netTxPutcSlot (net : Net n) (i : Fin n) (b : UInt8) : Bool × Net n :=
  if (net.conns i).used ≥ SND_SZ - 1 then (false, net)
  else (true, ringAppend .unicast net i b)

/-- `net_slot_connected`. -/
def netSlotConnected (net : Net n) (i : Fin n) : Bool := (net.conns i).tstate = .estab

/-- `net_tx_room_slot`. -/
def netTxRoomSlot (net : Net n) (i : Fin n) : Nat := (SND_SZ - 1) - (net.conns i).used

/-- `net_slot_stalled`. -/
def netSlotStalled (net : Net n) (i : Fin n) : Bool :=
  let c := net.conns i
  c.tstate = .estab && (c.used ≥ SND_SZ - 1 && c.rexmitCount > 0)

/-- `net_rx_getc`. -/
def netRxGetc (net : Net n) (i : Fin n) : Option UInt8 × Net n :=
  let c := net.conns i
  if c.rTail = c.rHead then (none, net)
  else (some (c.rbuf c.rTail), net.set i { c with rTail := (c.rTail + 1) % RCV_SZ })

/-- The stack after `net_open`, once the driver gave its address. -/
def netOpen (gMac gIp : List UInt8) (myPort : Nat) : Net n where
  gMac := gMac
  gIp := gIp
  myPort := myPort
  gIpId := 0
  conns := fun _ => Conn.zero
  work := fun _ => 0
  log := []

/-- A TCP frame of a peer: an Ethernet, an IP and a TCP header of the usual
lengths, and the payload. -/
def peerFrame (srcIp dstIp : List UInt8) (sport dport seq ack : Nat) (flags : UInt8)
    (payload : List UInt8) : List UInt8 :=
  List.replicate 12 0 ++ be16 0x0800 ++
    ([0x45, 0] ++ be16 (40 + payload.length) ++ [0, 0, 0, 0, 64, 6, 0, 0] ++ srcIp ++ dstIp) ++
    (be16 sport ++ be16 dport ++ be32 seq ++ be32 ack ++ [0x50, flags] ++ List.replicate 6 0) ++
    payload

/-! ## Runs of the stack -/

/-- A call of the interface, with what it reads from outside. -/
inductive NetOp (n : Nat) where
  | poll (now : BitVec 32) (pkt : Option (List UInt8))
  | takeNew
  | putc (b : UInt8)
  | putcSlot (i : Fin n) (b : UInt8)
  | flush (now : BitVec 32)
  | slotReady (i : Fin n) (v : Bool)
  | slotDrop (i : Fin n)
  | rxGetc (i : Fin n)

/-- The stack after a call. -/
def NetOp.run : NetOp n → Net n → Net n
  | .poll now pkt, net => netPoll now pkt net
  | .takeNew, net => (netTakeNewSlot net).2
  | .putc b, net => (netTxPutc net b).2
  | .putcSlot i b, net => (netTxPutcSlot net i b).2
  | .flush now, net => netTxFlush now net
  | .slotReady i v, net => netSlotReady net i v
  | .slotDrop i, net => netSlotDrop net i
  | .rxGetc i, net => (netRxGetc net i).2

/-- The stack after a sequence of calls. -/
def netRun (ops : List (NetOp n)) (net : Net n) : Net n :=
  ops.foldl (fun net op => op.run net) net

/-- The states of the stack reachable from `net_open`. -/
def NetReach (net : Net n) : Prop :=
  ∃ gMac gIp myPort ops, net = netRun ops (netOpen gMac gIp myPort)

/-- An invariant of the initial state and of every call holds in every reachable
state. -/
theorem NetReach.induct {P : Net n → Prop} (hinit : ∀ m ip p, P (netOpen m ip p))
    (hstep : ∀ op net, P net → P (NetOp.run op net)) {net : Net n} (h : NetReach net) :
    P net := by
  obtain ⟨m, ip, p, ops, rfl⟩ := h
  have hrun : ∀ (ops : List (NetOp n)) (net : Net n), P net → P (netRun ops net) := by
    intro ops
    induction ops with
    | nil => exact fun _ h => h
    | cons op ops ih => exact fun net h => ih _ (hstep op net h)
  exact hrun ops _ (hinit m ip p)

end Dossh
