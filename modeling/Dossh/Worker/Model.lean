import Dossh.AnsiKey
import Dossh.Net.Api
import Dossh.Render.Model
import Dossh.Ssh.Transport

/-!
# The SSH worker

`ssh_net_worker` of `dosshd.c`, which runs once per timer tick: it polls the network
stack, serves each slot with the state of that slot and the one shared part of
`ssh.c`, and broadcasts the screen.

A tick has no result when a call of `ssh_input` has none, because it decrypts over
foreign memory or is still in its loop when the fuel is used up.  The mixing of the
received bytes into the random generator is left out: what the generator delivers is
arbitrary.

`Worker.hist` is added to the state of the source and read only by statements.
-/

namespace Dossh

variable {n : Nat}

/-! ## State -/

/-- `SSH_RING_RESERVE`. -/
def SSH_RING_RESERVE : Nat := 512

/-- `TX_BUDGET`, the render bytes of one tick. -/
def SSH_TX_BUDGET : Nat := 512

/-- One call of `ssh_channel_emit` in a round of the broadcast: the slot, its connection
before the call, the wire bytes if there are any, what `net_tx_putc_slot` returned for
each of them, and the room of the ring afterwards. -/
structure EmitRec (n : Nat) where
  slot : Fin n
  conn : SshConn
  wire : Option (List UInt8)
  accepted : List Bool
  room : Nat

/-- A round of the broadcast that consumed render bytes: the bytes, the slots that took
part when the framing began, and the calls, newest first. -/
structure Round (n : Nat) where
  data : List UInt8
  eligible : Fin n → Bool
  emits : List (EmitRec n)

/-- What the worker did. -/
structure WorkerHist (n : Nat) where
  /-- The number of the TCP connection for which `ssh_reset` was last called. -/
  sess : Fin n → Nat
  /-- The slot whose packets were last queued in `g_ob`. -/
  owner : Option (Fin n)
  /-- A slot was turned to while `g_ob` held bytes of another. -/
  mixed : Bool
  /-- A slot was turned to while `g_cin` held bytes. -/
  stale : Bool
  /-- Ctrl-D was met while the slot had no open channel. -/
  unopened : Bool
  /-- The bytes passed to `ansi_key_byte` while the slot was serviced, since `ssh_reset`. -/
  typed : Fin n → List UInt8
  /-- Ctrl-D was met since `ssh_reset`. -/
  ended : Fin n → Bool
  /-- The number of calls of `render_reset`. -/
  resets : Nat
  /-- The number of connections taken. -/
  taken : Nat
  /-- The number of times a slot was first seen ready. -/
  readied : Nat
  /-- The number of rounds before the slot was first seen ready. -/
  mark : Fin n → Nat
  /-- The rounds of the broadcast, newest first. -/
  rounds : List (Round n)

/-- The state of the worker: the stack, `ssh_slots` and the shared part of `ssh.c`,
`ssh_active`, `ssh_ready_seen`, `g_ssh_cols`, `g_ssh_rows`, `g_eof_exit`, the key mapper
and the renderer. -/
structure Worker (n : Nat) where
  net : Net n
  slots : Fin n → SshConn
  shared : SshShared
  active : Fin n → Bool
  readySeen : Fin n → Bool
  cols : Nat
  rows : Nat
  eofExit : Bool
  key : AnsiKey
  render : Render
  hist : WorkerHist n

/-- What a tick reads from outside: a received packet, the screen with the tick counter,
and for `ssh_input` on each slot the memory behind its buffer and the fuel. -/
structure Tick (n : Nat) where
  pkt : Option (List UInt8)
  screen : Screen
  beyond : Fin n → Nat → Nat → UInt8
  fuel : Nat

namespace Worker

/-- What a call of `ssh.h` on slot `i` works on. -/
def ssh (w : Worker n) (i : Fin n) : Ssh := { c := w.slots i, g := w.shared, reads := [] }

/-- The state after such a call. -/
def setSsh (w : Worker n) (i : Fin n) (s : Ssh) : Worker n :=
  { w with slots := Function.update w.slots i s.c, shared := s.g }

/-- `ssh_active[i] = v`. -/
def setActive (w : Worker n) (i : Fin n) (v : Bool) : Worker n :=
  { w with active := Function.update w.active i v }

/-- The worker turns to slot `i`. -/
def enter (w : Worker n) (i : Fin n) : Worker n :=
  { w with hist := { w.hist with
    owner := some i
    mixed := w.hist.mixed || (!w.shared.ob.isEmpty && w.hist.owner ≠ some i) } }

/-- `render_reset`. -/
def repaint (now : BitVec 32) (w : Worker n) : Worker n :=
  { w with
    render := renderReset now w.render, hist := { w.hist with resets := w.hist.resets + 1 } }

end Worker

/-! ## Output of one slot -/

/-- `net_tx_putc_slot` for each byte, and what it returned. -/
def putcs (i : Fin n) : List UInt8 → Net n → List Bool × Net n
  | [], net => ([], net)
  | b :: bs, net =>
      let r := netTxPutcSlot net i b
      let rest := putcs i bs r.2
      (r.1 :: rest.1, rest.2)

/-- The loop of `ssh_pump_output`.  Every turn takes at least one byte from `g_ob`. -/
def pumpLoop (i : Fin n) : Nat → Worker n → Worker n
  | 0, w => w
  | fuel + 1, w =>
      let room := netTxRoomSlot w.net i
      if room = 0 then w
      else
        let r := sshOutput w.shared (if room > 128 then 128 else room)
        if r.1 = [] then { w with shared := r.2 }
        else pumpLoop i fuel { w with shared := r.2, net := (putcs i r.1 w.net).2 }

/-- `ssh_pump_output`. -/
def sshPumpOutput (w : Worker n) (i : Fin n) : Worker n := pumpLoop i (w.shared.ob.length + 1) w

/-! ## New connections -/

/-- The body of the loop over new connections. -/
def sshBegin (env : SshEnv) (w : Worker n) (i : Fin n) : Worker n :=
  let w := w.enter i
  let w := (w.setSsh i (sshReset env w.shared)).setActive i true
  let w := { w with
    readySeen := Function.update w.readySeen i false, cols := 80, rows := 25
    hist := { w.hist with
      sess := Function.update w.hist.sess i (w.net.conns i).gen
      typed := Function.update w.hist.typed i []
      ended := Function.update w.hist.ended i false
      taken := w.hist.taken + 1 } }
  sshPumpOutput w i

/-- The loop over new connections.  Every turn clears one `just_estab` bit, so `n` turns
are enough. -/
def sshBeginLoop (env : SshEnv) : Nat → Worker n → Worker n
  | 0, w => w
  | fuel + 1, w =>
      match netTakeNewSlot w.net with
      | (none, net) => { w with net := net }
      | (some i, net) => sshBeginLoop env fuel (sshBegin env { w with net := net } i)

/-! ## Service of one slot -/

/-- The loop that fills `rb` from the receive ring. -/
def rxTake (i : Fin n) : Nat → Net n → List UInt8 × Net n
  | 0, net => ([], net)
  | k + 1, net =>
      match netRxGetc net i with
      | (none, net) => ([], net)
      | (some b, net) =>
          let r := rxTake i k net
          (b :: r.1, r.2)

/-- Feed the received bytes to `ssh_input`. -/
def serviceInput (env : SshEnv) (t : Tick n) (w : Worker n) (i : Fin n) : Option (Worker n) :=
  let r := rxTake i 512 w.net
  let w := { w with net := r.2 }
  if r.1 = [] then some w
  else
    match sshInput env (t.beyond i) t.fuel (w.ssh i) r.1 with
    | .back s => some (w.setSsh i s)
    | .wild => none
    | .running _ => none

/-- Ctrl-D with `/EOF`: close the channel and send that. -/
def sshEof (env : SshEnv) (now : BitVec 32) (w : Worker n) (i : Fin n) : Worker n :=
  let w := { w with hist := { w.hist with
    ended := Function.update w.hist.ended i true
    unopened := w.hist.unopened || !(w.slots i).chanOpen } }
  let w := sshPumpOutput (w.setSsh i (sshChannelClose env (w.ssh i))) i
  { w with net := netTxFlush now w.net }

/-- The loop over the decrypted keystrokes.  Every turn takes one byte from `g_cin`. -/
def drainLoop (env : SshEnv) (now : BitVec 32) (i : Fin n) : Nat → Worker n → Worker n
  | 0, w => w
  | fuel + 1, w =>
      match sshChannelGetc w.shared with
      | (none, g) => { w with shared := g }
      | (some b, g) =>
          let w := { w with shared := g }
          if w.eofExit && b = 0x04 then sshEof env now w i
          else
            drainLoop env now i fuel { w with
              key := ansiKeyByte w.key b
              hist := { w.hist with
                typed := Function.update w.hist.typed i (w.hist.typed i ++ [b]) } }

/-- A channel that is first seen ready is repainted, and so is a new terminal size. -/
def sshLook (now : BitVec 32) (w : Worker n) (i : Fin n) : Worker n :=
  if sshChannelReady (w.slots i) then
    let w := if !w.readySeen i then
        Worker.repaint now { w with
          readySeen := Function.update w.readySeen i true
          hist := { w.hist with
            readied := w.hist.readied + 1
            mark := Function.update w.hist.mark i w.hist.rounds.length } }
      else w
    let size := sshWinsize (w.slots i)
    if size.1 ≠ w.cols ∨ size.2 ≠ w.rows then
      Worker.repaint now { w with cols := size.1, rows := size.2 }
    else w
  else w

/-- A closed channel or connection is torn down. -/
def sshTeardown (w : Worker n) (i : Fin n) : Worker n :=
  if (w.slots i).chanClosed || sshFailed (w.slots i) || (w.slots i).state = .closed then
    let w := sshPumpOutput w i
    let w := { w with shared := sshDiscardOutput w.shared }
    { w with net := netSlotDrop w.net i }.setActive i false
  else w

/-- The body of the loop over the slots. -/
def serviceSlot (env : SshEnv) (t : Tick n) (w : Worker n) (i : Fin n) : Option (Worker n) :=
  if !w.active i then some w
  else if !netSlotConnected w.net i then some (w.setActive i false)
  else
    let w := w.enter i
    let w := { w with hist := { w.hist with stale := w.hist.stale || !w.shared.cin.isEmpty } }
    (serviceInput env t w i).map fun w =>
      let w := sshPumpOutput w i
      let w := drainLoop env t.screen.ticks i (w.shared.cin.length + 1) w
      sshTeardown (sshLook t.screen.ticks w i) i

/-! ## The broadcast -/

namespace Worker

/-- The slot takes part in the broadcast. -/
def eligible (w : Worker n) (i : Fin n) : Bool :=
  w.active i && netSlotConnected w.net i && sshChannelReady (w.slots i)

/-- The bytes that slot `i` can take. -/
def slotCap (w : Worker n) (i : Fin n) : Nat :=
  let a := sshChannelAvail (w.slots i)
  let room := netTxRoomSlot w.net i
  let netcap := if room > SSH_RING_RESERVE + 40 then room - SSH_RING_RESERVE - 40 else 0
  if netcap < a then netcap else a

end Worker

/-- The first loop of a round: the tightest slot sets the size of the chunk, a dead one is
evicted. -/
def capLoop : List (Fin n) → Nat → Bool → Worker n → Nat × Bool × Worker n
  | [], cap, any, w => (cap, any, w)
  | i :: is, cap, any, w =>
      if !w.eligible i then capLoop is cap any w
      else
        let a := w.slotCap i
        if a = 0 && netSlotStalled w.net i then
          capLoop is cap true ({ w with net := netSlotDrop w.net i }.setActive i false)
        else capLoop is (if a < cap then a else cap) true w
termination_by structural is => is

/-- The second loop: up to `k` render bytes. -/
def pullLoop (s : Screen) : Nat → Render → List UInt8 × Render
  | 0, r => ([], r)
  | k + 1, r =>
      match renderNextByte false s r with
      | (none, r) => ([], r)
      | (some b, r) =>
          let p := pullLoop s k r
          (b :: p.1, p.2)

/-- Record a call of `ssh_channel_emit`. -/
def Worker.noteEmit (w : Worker n) (e : EmitRec n) : Worker n :=
  { w with hist := { w.hist with
    rounds := match w.hist.rounds with
      | [] => []
      | r :: rs => { r with emits := e :: r.emits } :: rs } }

/-- The body of the third loop: frame the chunk for slot `i`. -/
def emitSlot (env : SshEnv) (plain : List UInt8) (w : Worker n) (i : Fin n) : Worker n :=
  if !w.eligible i then w
  else
    let r := sshChannelEmit env (w.ssh i) plain (SSH_CHAN_CHUNK + 40)
    let p := putcs i (r.1.getD []) w.net
    let e : EmitRec n :=
      { slot := i, conn := w.slots i, wire := r.1, accepted := p.1, room := netTxRoomSlot p.2 i }
    { w.setSsh i r.2 with net := p.2 }.noteEmit e

/-- The third loop, after `plain` was consumed. -/
def emitRound (env : SshEnv) (plain : List UInt8) (w : Worker n) : Worker n :=
  let w := { w with hist := { w.hist with
    rounds := { data := plain, eligible := w.eligible, emits := [] } :: w.hist.rounds } }
  (List.finRange n).foldl (emitSlot env plain) w

/-- The loop of `ssh_net_broadcast`.  Every turn uses at least one byte of the budget. -/
def broadcastLoop (env : SshEnv) (s : Screen) : Nat → Nat → Worker n → Worker n
  | 0, _, w => w
  | fuel + 1, budget, w =>
      let r := capLoop (List.finRange n) SSH_CHAN_CHUNK false w
      let w := r.2.2
      if !r.2.1 then w
      else if r.1 = 0 then w
      else
        let cap := if r.1 > budget then budget else r.1
        if cap = 0 then w
        else
          let p := pullLoop s cap w.render
          let w := { w with render := p.2 }
          if p.1 = [] then w
          else
            let w := emitRound env p.1 w
            let budget := budget - p.1.length
            if budget = 0 then w else broadcastLoop env s fuel budget w

/-- `ssh_net_broadcast`. -/
def sshNetBroadcast (env : SshEnv) (s : Screen) (w : Worker n) : Worker n :=
  broadcastLoop env s SSH_TX_BUDGET SSH_TX_BUDGET w

/-! ## The tick -/

/-- The loop over the slots. -/
def serviceSlots (env : SshEnv) (t : Tick n) : List (Fin n) → Worker n → Option (Worker n)
  | [], w => some w
  | i :: is, w => (serviceSlot env t w i).bind (serviceSlots env t is)

/-- `ssh_net_worker`. -/
def sshNetWorker (env : SshEnv) (t : Tick n) (w : Worker n) : Option (Worker n) :=
  let w := { w with net := netPoll t.screen.ticks t.pkt w.net }
  let w := sshBeginLoop env (n + 1) w
  (serviceSlots env t (List.finRange n) w).map fun w =>
    let w := sshNetBroadcast env t.screen w
    { w with net := netTxFlush t.screen.ticks w.net }

/-- The worker after a sequence of ticks. -/
def workerRun (env : SshEnv) : List (Tick n) → Worker n → Option (Worker n)
  | [], w => some w
  | t :: ts, w => (sshNetWorker env t w).bind (workerRun env ts)

/-- The history of a worker that did nothing. -/
def WorkerHist.init : WorkerHist n where
  sess := fun _ => 0
  owner := none
  mixed := false
  stale := false
  unopened := false
  typed := fun _ => []
  ended := fun _ => false
  resets := 0
  taken := 0
  readied := 0
  mark := fun _ => 0
  rounds := []

/-- The worker when the program goes resident in SSH mode. -/
def workerInit (gMac gIp : List UInt8) (myPort : Nat) (eofExit : Bool) (render : Render) :
    Worker n where
  net := netOpen gMac gIp myPort
  slots := fun _ => SshConn.zero
  shared := SshShared.zero
  active := fun _ => false
  readySeen := fun _ => false
  cols := 80
  rows := 25
  eofExit := eofExit
  key := AnsiKey.init
  render := render
  hist := WorkerHist.init

/-- The states reachable by ticks. -/
def WorkerReach (env : SshEnv) (w : Worker n) : Prop :=
  ∃ gMac gIp myPort eofExit render ts,
    workerRun env ts (workerInit gMac gIp myPort eofExit render) = some w

end Dossh
