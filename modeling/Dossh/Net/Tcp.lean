import Dossh.Net.Conn

/-!
# The TCP stack

The functions of `net.c` from `tcp_reset_listen` to `net_poll`.  Each takes the
value of the BIOS tick counter where the source reads it: `ticks()` is one
value during one call of the stack.  A signed comparison `(long)(a - b) > 0` of
the source is `0 < (a - b).toInt`.

`net.c` is only built for the 16-bit target, so the subtractions of lengths in
`tcp_in` are reduced modulo `65536`.
-/

namespace Dossh

variable {n : Nat}

/-! ## Segments -/

/-- `tcp_reset_listen`. -/
def tcpResetListen (c : Conn) : Conn :=
  { c with
    tstate := .listen, sUna := 0, sNxt := 0, sEnd := 0, rHead := 0, rTail := 0
    rexmitCount := 0, ready := false }

/-- The segment `tcp_send_seg` builds: `dlen` bytes of the send ring from index
`doff`, and the free space of the receive ring as the window. -/
def Conn.mkSeg (c : Conn) (flags : UInt8) (withMss : Bool) (doff dlen : Nat) : Seg where
  dstMac := c.peerMac
  dstIp := c.peerIp
  dstPort := c.peerPort
  seq := c.sndNxt
  ack := c.rcvNxt
  flags := flags
  window := (RCV_SZ - 1) - Ring.dist RCV_SZ c.rHead c.rTail
  mss := withMss
  data := Ring.read SND_SZ c.sbuf doff dlen

/-- `tcp_send_seg`. -/
def tcpSendSeg (net : Net n) (i : Fin n) (flags : UInt8) (withMss : Bool) (doff dlen : Nat) :
    Net n :=
  let c := net.conns i
  let ipId := (net.gIpId + 1) % 65536
  { net with
    gIpId := ipId
    log := .seg i c.gen ipId (c.mkSeg flags withMss doff dlen) :: net.log }

/-- The later of two sequence numbers. -/
def serialMax (a b : BitVec 32) : BitVec 32 := if 0 < (b - a).toInt then b else a

/-- One turn of the loop of `tcp_output`: `k` bytes from `s_nxt` on. -/
def tcpOutputOne (now : BitVec 32) (net : Net n) (i : Fin n) (k : Nat) : Net n :=
  let c := net.conns i
  let net := tcpSendSeg net i 0x18 false c.sNxt k
  net.set i { c with
    rexmitAt := if c.sndUna = c.sndNxt then now + REXMIT_TICKS else c.rexmitAt
    sNxt := (c.sNxt + k) % SND_SZ
    sndNxt := c.sndNxt + BitVec.ofNat 32 k
    sndMax := serialMax c.sndMax (c.sndNxt + BitVec.ofNat 32 k) }

/-- The loop of `tcp_output`.  Every turn sends at least one byte, so `unsent`
turns are enough. -/
def tcpOutputLoop (now : BitVec 32) (i : Fin n) : Nat → Nat → Net n → Net n
  | 0, _, net => net
  | fuel + 1, unsent, net =>
      if unsent = 0 then net
      else
        let k := if unsent > MSS_TX then MSS_TX else unsent
        tcpOutputLoop now i fuel (unsent - k) (tcpOutputOne now net i k)
termination_by structural fuel => fuel

/-- `tcp_output`. -/
def tcpOutput (now : BitVec 32) (net : Net n) (i : Fin n) : Net n :=
  let c := net.conns i
  if c.tstate ≠ .estab then net
  else tcpOutputLoop now i c.unsent c.unsent net

/-! ## Choosing a slot -/

/-- `find_conn`. -/
def findConn (net : Net n) (sport : Nat) (srcIp : List UInt8) : Option (Fin n) :=
  (List.finRange n).find? fun i =>
    (net.conns i).tstate ≠ .listen && (net.conns i).peerPort = sport &&
      (net.conns i).peerIp = srcIp

/-- `alloc_conn`: a stalled slot of this host, else a free slot, else any slot of
this host. -/
def allocConn (net : Net n) (srcIp : List UInt8) : Option (Fin n) :=
  ((List.finRange n).find? fun i =>
      (net.conns i).tstate ≠ .listen && (net.conns i).rexmitCount > 0 &&
        (net.conns i).peerIp = srcIp)
    <|> ((List.finRange n).find? fun i => (net.conns i).tstate = .listen)
    <|> ((List.finRange n).find? fun i => (net.conns i).peerIp = srcIp)

/-- `send_rst`: refuse a SYN. -/
def sendRst (net : Net n) (srcMac srcIp : List UInt8) (sport : Nat) (seq : BitVec 32) : Net n :=
  let ipId := (net.gIpId + 1) % 65536
  { net with
    gIpId := ipId
    log := .refuse ipId
      { dstMac := srcMac, dstIp := srcIp, dstPort := sport, seq := 0, ack := seq + 1
        flags := 0x14, window := 0, mss := false, data := [] } :: net.log }

/-! ## Inbound segments -/

/-- What `tcp_in` reads from the headers of a frame.  `off` is the offset of the
TCP header in the frame. -/
structure TcpHdr where
  srcMac : List UInt8
  srcIp : List UInt8
  off : Nat
  tcplen : Nat
  toff : Nat
  flags : UInt8
  sport : Nat
  dport : Nat
  seq : BitVec 32
  ack : BitVec 32
deriving DecidableEq, Repr

/-- The declarations at the head of `tcp_in`. -/
def tcpHdr (f : Nat → UInt8) : TcpHdr :=
  let ihl := (f 14 &&& 0x0F).toNat * 4
  let t := 14 + ihl
  { srcMac := slice f 6 6
    srcIp := slice f 26 4
    off := t
    tcplen := (rd16 f 16 + 65536 - ihl) % 65536
    toff := (f (t + 12) >>> 4).toNat * 4
    flags := f (t + 13)
    sport := rd16 f t
    dport := rd16 f (t + 2)
    seq := BitVec.ofNat 32 (rd32 f (t + 4))
    ack := BitVec.ofNat 32 (rd32 f (t + 8)) }

/-- `dlen = tcplen - toff`. -/
def TcpHdr.dlen (h : TcpHdr) : Nat := h.tcplen - h.toff

/-- The RST block: the connection is gone. -/
def tcpInRst (net : Net n) (c : Option (Fin n)) : Net n :=
  match c with
  | some i => net.set i (tcpResetListen (net.conns i))
  | none => net

/-- The state a fresh SYN gives to the slot it takes, up to the SYN|ACK.
Neither `ready` nor `just_estab` is assigned. -/
def synConn (now : BitVec 32) (h : TcpHdr) (i : Fin n) (c : Conn) : Conn :=
  let iss := (0x00013700 : BitVec 32) + now + BitVec.ofNat 32 i.val
  { c with
    peerMac := h.srcMac, peerIp := h.srcIp, peerPort := h.sport
    sndUna := iss, sndNxt := iss, rcvNxt := h.seq + 1, tstate := .synrcvd
    sUna := 0, sNxt := 0, sEnd := 0, rHead := 0, rTail := 0, rexmitCount := 0
    gen := c.gen + 1 }

/-- A SYN takes slot `i`: SYN|ACK, one sequence number, and the timer. -/
def tcpInSynAccept (now : BitVec 32) (net : Net n) (h : TcpHdr) (i : Fin n) : Net n :=
  let c := synConn now h i (net.conns i)
  let net := (net.note (.syn i c.gen c.sndUna)).set i c
  let net := tcpSendSeg net i 0x12 true 0 0
  net.set i { c with
    sndNxt := c.sndNxt + 1, rexmitAt := now + REXMIT_TICKS, sndMax := c.sndNxt + 1 }

/-- The SYN block: a duplicate on a live connection is ignored. -/
def tcpInSyn (now : BitVec 32) (net : Net n) (h : TcpHdr) (c : Option (Fin n)) : Net n :=
  match c with
  | some _ => net
  | none =>
      match allocConn net h.srcIp with
      | none => sendRst net h.srcMac h.srcIp h.sport h.seq
      | some i => tcpInSynAccept now net h i

/-- In `SYNRCVD`, the ACK of our SYN establishes the connection.  `none` is the
`return` of the source. -/
def tcpInSynrcvd (net : Net n) (h : TcpHdr) (i : Fin n) : Option (Net n) :=
  let c := net.conns i
  if c.tstate = .synrcvd then
    if hasFlag h.flags 0x10 && h.ack = c.sndNxt then
      some ((net.note (.estab i c.gen h.ack)).set i
        { c with sndUna := h.ack, tstate := .estab, justEstab := true, rexmitCount := 0 })
    else none
  else some net

/-- The acceptance test of an ACK in `ESTAB`. -/
def Conn.acceptsAck (c : Conn) (ack : BitVec 32) : Bool :=
  0 < (ack - c.sndUna).toInt && (ack - c.sndNxt).toInt ≤ 0

/-- The ACK block: advance the send window. -/
def tcpInAck (now : BitVec 32) (h : TcpHdr) (c : Conn) : Conn :=
  if hasFlag h.flags 0x10 && c.acceptsAck h.ack then
    { c with
      sUna := (c.sUna + (h.ack - c.sndUna).toNat % 65536) % SND_SZ
      sndUna := h.ack
      rexmitAt := now + REXMIT_TICKS
      rexmitCount := 0 }
  else c

/-- The storing loop: `k` bytes from offset `o` on while the ring has room, and
how many were stored. -/
def rcvStore (f : Nat → UInt8) : Nat → Nat → Conn → Conn × Nat
  | 0, _, c => (c, 0)
  | k + 1, o, c =>
      let nh := (c.rHead + 1) % RCV_SZ
      if nh = c.rTail then (c, 0)
      else
        let r := rcvStore f k (o + 1)
          { c with rbuf := Function.update c.rbuf c.rHead (f o), rHead := nh }
        (r.1, r.2 + 1)
termination_by structural k => k

/-- The data block: store in-order data, acknowledge what was kept. -/
def tcpInData (f : Nat → UInt8) (net : Net n) (h : TcpHdr) (i : Fin n) : Net n :=
  if h.dlen = 0 then net
  else
    let c := net.conns i
    let c :=
      if h.seq = c.rcvNxt then
        let r := rcvStore f h.dlen (h.off + h.toff) c
        { r.1 with rcvNxt := c.rcvNxt + BitVec.ofNat 32 r.2 }
      else c
    tcpSendSeg (net.set i c) i 0x10 false 0 0

/-- The FIN block: acknowledge and reopen. -/
def tcpInFin (net : Net n) (h : TcpHdr) (i : Fin n) : Net n :=
  if hasFlag h.flags 0x01 then
    let c := net.conns i
    let net := tcpSendSeg (net.set i { c with rcvNxt := c.rcvNxt + 1 }) i 0x10 false 0 0
    net.set i (tcpResetListen (net.conns i))
  else net

/-- The blocks of `tcp_in` after the connection of a plain segment was found. -/
def tcpInConn (now : BitVec 32) (f : Nat → UInt8) (net : Net n) (h : TcpHdr) (i : Fin n) :
    Net n :=
  match tcpInSynrcvd net h i with
  | none => net
  | some net =>
      if (net.conns i).tstate ≠ .estab then net
      else
        let net := net.set i (tcpInAck now h (net.conns i))
        tcpInFin (tcpInData f net h i) h i

/-- `tcp_in`. -/
def tcpIn (now : BitVec 32) (net : Net n) (f : Nat → UInt8) : Net n :=
  let h := tcpHdr f
  if h.dport ≠ net.myPort then net
  else if h.tcplen < h.toff then net
  else
    let c := findConn net h.sport h.srcIp
    if hasFlag h.flags 0x04 then tcpInRst net c
    else if hasFlag h.flags 0x02 then tcpInSyn now net h c
    else
      match c with
      | none => net
      | some i => tcpInConn now f net h i

/-! ## The timer -/

/-- The expiry test of `tcp_timer`. -/
def Conn.expired (now : BitVec 32) (c : Conn) : Bool :=
  c.tstate ≠ .listen && 0 < (c.sndNxt - c.sndUna).toInt && 0 ≤ (now - c.rexmitAt).toInt

/-- `tcp_timer`. -/
def tcpTimer (now : BitVec 32) (net : Net n) (i : Fin n) : Net n :=
  let c := net.conns i
  if c.expired now then
    let net := net.note (.expire i c.gen)
    if c.rexmitCount + 1 > MAX_REXMIT then
      net.set i (tcpResetListen { c with rexmitCount := c.rexmitCount + 1 })
    else
      -- go-back-N: resend from the oldest unacknowledged byte
      let c := { c with rexmitCount := c.rexmitCount + 1, sNxt := c.sUna, sndNxt := c.sndUna }
      let net := net.set i c
      let net := if c.tstate = .synrcvd then tcpSendSeg net i 0x12 true 0 0 else net
      net.set i { c with rexmitAt := now + REXMIT_TICKS }
  else net

/-! ## Frames -/

/-- `arp_in`: answer a request for our address. -/
def arpIn (net : Net n) (f : Nat → UInt8) (len : Nat) : Net n :=
  let a := 14
  if len < 14 + 28 then net
  else if rd16 f a ≠ 0x0001 then net
  else if rd16 f (a + 2) ≠ 0x0800 then net
  else if rd16 f (a + 6) ≠ 0x0001 then net
  else if slice f (a + 24) 4 ≠ net.gIp then net
  else
    net.note (.arp
      (slice f (a + 8) 6 ++ net.gMac ++ be16 0x0806 ++
        (slice f a 6 ++ be16 0x0002 ++ net.gMac ++ net.gIp ++ slice f (a + 8) 6 ++
          slice f (a + 14) 4)))

/-- `handle_frame`. -/
def handleFrame (now : BitVec 32) (net : Net n) (f : Nat → UInt8) (len : Nat) : Net n :=
  if len < 14 then net
  else
    let et := rd16 f 12
    if et = 0x0806 then arpIn net f len
    else if et ≠ 0x0800 then net
    else if len < 14 + 20 then net
    else if f 14 >>> 4 ≠ 4 then net
    else if slice f 30 4 ≠ net.gIp then net
    else if f 23 = 6 then tcpIn now net f
    else net

/-- The timers of all slots, the first loop of `net_poll`. -/
def netTimers (now : BitVec 32) (net : Net n) : Net n :=
  (List.finRange n).foldl (tcpTimer now) net

/-- The middle of `net_poll`: a received frame is copied over the work buffer,
whose older content stays behind it, and handled. -/
def netReceive (now : BitVec 32) (net : Net n) (pkt : Option (List UInt8)) : Net n :=
  match pkt with
  | none => net
  | some stage =>
      let frame := stage.take WORK_SZ
      let work := overlay net.work 0 frame
      handleFrame now { net with work := work } work frame.length

/-- `net_tx_flush`, and the last loop of `net_poll`. -/
def netTxFlush (now : BitVec 32) (net : Net n) : Net n :=
  (List.finRange n).foldl (tcpOutput now) net

/-- `net_poll`. -/
def netPoll (now : BitVec 32) (pkt : Option (List UInt8)) (net : Net n) : Net n :=
  netTxFlush now (netReceive now (netTimers now net) pkt)

end Dossh
