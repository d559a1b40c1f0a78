import Dossh.Ssh.Auth
import Dossh.Ssh.Channel
import Dossh.Ssh.Kex

/-!
# The transport

The dispatcher, the two decoders of inbound bytes, and the calls of `ssh.h`.

`try_packet` narrows the length field of a packet to `unsigned` and adds to it.  When that
sum wraps, the code goes on with a short `need` and a long payload, and reads memory behind
the filled part of `ib`.  That memory is the argument `beyond`.  In encrypted mode the
packet is decrypted in place, over whatever lies behind `ib`; nothing can be said about the
program from there on, and the step ends in `wild`.
-/

namespace Dossh

/-! ## Dispatch -/

/-- The messages of the session, after authentication. -/
def handleSession (env : SshEnv) (s : Ssh) (pl : Payload) (msg : UInt8) : Ssh :=
  if msg = MSG_CHANNEL_OPEN then handleChannelOpen env s pl
  else if msg = MSG_CHANNEL_REQUEST then handleChannelRequest env s pl
  else if msg = MSG_CHANNEL_DATA then handleChannelData env s pl
  else if msg = MSG_CHANNEL_WINDOW_ADJUST then handleChannelWindowAdjust s pl
  else if msg = MSG_CHANNEL_EOF then { s with c := { s.c with chanEof := true } }
  else if msg = MSG_CHANNEL_CLOSE then
    let s := if !s.c.chanSentClose then sshChannelClose env s else s
    { s with c := { s.c with chanClosed := true, state := .closed } }
  else s

/-- The `switch` of `handle_packet` on the state. -/
def handleByState (env : SshEnv) (s : Ssh) (pl : Payload) (msg : UInt8) : Ssh :=
  match s.c.state with
  | .expectKexinit =>
      if msg ≠ MSG_KEXINIT then s.fail "expected KEXINIT" else handleKexinit env s pl
  | .expectEcdhInit =>
      if msg ≠ MSG_KEX_ECDH_INIT ∧ s.c.discardNext = false then s.fail "expected KEX_ECDH_INIT"
      else handleEcdhInit env s pl
  | .expectClientNewkeys =>
      if msg ≠ MSG_NEWKEYS then s.fail "expected NEWKEYS" else handleClientNewkeys s
  | .expectServiceRequest =>
      if msg ≠ MSG_SERVICE_REQUEST then s.fail "expected SERVICE_REQUEST"
      else handleServiceRequest env s pl
  | .auth => if msg = MSG_USERAUTH_REQUEST then handleUserauthRequest env s pl else s
  | .session => handleSession env s pl msg
  | .version | .closed | .error => s.fail "unexpected packet"

/-- The message number of a payload. -/
def Payload.msg (pl : Payload) : UInt8 := if pl.len ≠ 0 then pl.get 0 else 0

/-- `handle_packet`. -/
def handlePacket (env : SshEnv) (s : Ssh) (pl : Payload) : Ssh :=
  let msg := pl.msg
  let s := if pl.len ≠ 0 then s.read pl 0 1 else s
  if msg = MSG_DISCONNECT then { s with c := { s.c with state := .closed } }
  else if msg = MSG_IGNORE ∨ msg = MSG_DEBUG ∨ msg = MSG_UNIMPLEMENTED then s
  else if msg = MSG_GLOBAL_REQUEST then handleGlobalRequest env s pl
  else handleByState env s pl msg

/-! ## Inbound bytes -/

/-- The results 1, 0 and -1 of the decoders, and the decryption over foreign memory. -/
inductive TryRes where
  | progressed
  | needMore
  | failed
  | wild
deriving DecidableEq, Repr

/-- What the loop of `try_version` finds. -/
inductive VersionScan where
  | line (i : Nat)
  | tooLong
  | more
deriving DecidableEq, Repr

/-- The loop of `try_version`, at index `i`. -/
def versionScan : List UInt8 → Nat → VersionScan
  | [], _ => .more
  | b :: ib, i =>
      if b = 0x0A then .line i else if i > 300 then .tooLong else versionScan ib (i + 1)

/-- `ib_consume`. -/
def Ssh.ibConsume (s : Ssh) (k : Nat) : Ssh := { s with c := { s.c with ib := s.c.ib.drop k } }

/-- The line in front of the newline at index `i`, without a carriage return. -/
def versionLine (ib : List UInt8) (i : Nat) : List UInt8 :=
  if i ≠ 0 ∧ ib.getD (i - 1) 0 = 0x0D then ib.take (i - 1) else ib.take i

/-- `try_version`. -/
def tryVersion (s : Ssh) : TryRes × Ssh :=
  match versionScan s.c.ib 0 with
  | .more => (.needMore, s)
  | .tooLong => (.failed, s.fail "version line too long")
  | .line i =>
      let line := versionLine s.c.ib i
      let s := if line.length ≥ 4 ∧ line.take 4 = ascii "SSH-" then
          { s with c := { s.c with cliVer := line.take 255, state := .expectKexinit } }
        else s
      (.progressed, s.ibConsume (i + 1))

/-- Call `handle_packet` on the payload behind the padding length. -/
def Ssh.dispatch (env : SshEnv) (s : Ssh) (wire : List UInt8) (mem : Nat → UInt8)
    (payloadLen : Nat) : Ssh :=
  let pl : Payload := ⟨mem, 0, payloadLen⟩
  let s := s.note
    (.packet s.c.state s.c.recvEncrypted s.c.recvSeq s.c.sessionId wire pl.bytes)
  handlePacket env { s with reads := [] } pl

/-- The end of a decoded packet: `ib_consume` and the next sequence number. -/
def Ssh.finish (s : Ssh) (need : Nat) : Ssh :=
  let s := s.ibConsume need
  { s with c := { s.c with recvSeq := s.c.recvSeq + 1 } }

/-- The memory from the start of `ib` on. -/
def SshConn.mem (c : SshConn) (beyond : Nat → UInt8) : Nat → UInt8 :=
  fun k => c.ib.getD k (beyond k)

/-- The plaintext branch of `try_packet`. -/
def tryPlain (env : SshEnv) (beyond : Nat → UInt8) (s : Ssh) : TryRes × Ssh :=
  if s.c.ib.length < 4 then (.needMore, s)
  else
    let mem := s.c.mem beyond
    let pktLen := env.u (rd32 mem 0)
    if pktLen < 1 ∨ env.u (pktLen + 4) > SSH_IB_SZ then (.failed, s.fail "packet too large")
    else
      let need := env.u (4 + pktLen)
      if s.c.ib.length < need then (.needMore, s)
      else
        let padlen := (mem 4).toNat
        if padlen + 1 > pktLen then (.failed, s.fail "bad padding")
        else
          let wire := s.c.ib.take need
          let s := s.dispatch env wire (fun k => mem (5 + k)) (pktLen - 1 - padlen)
          (.progressed, s.finish need)

/-- The length field of the packet in front of the buffer, decrypted with the header key. -/
def SshConn.encLen (env : SshEnv) (c : SshConn) : Nat :=
  let lenbuf := env.crypto.djb (c.ib.take 4) (c.ekC2s.drop 32) (seqbuf8 c.recvSeq) 0
  env.u (rd32 (fun k => lenbuf.getD k 0) 0)

/-- The tag the packet must have. -/
def SshConn.encTag (env : SshEnv) (c : SshConn) (beyond : Nat → UInt8) : List UInt8 :=
  env.crypto.poly1305 (slice (c.mem beyond) 0 (env.u (4 + c.encLen env)))
    (env.crypto.polykey (c.ekC2s.take 32) (seqbuf8 c.recvSeq))

/-- The body of the packet, decrypted with the main key. -/
def SshConn.encBody (env : SshEnv) (c : SshConn) : List UInt8 :=
  env.crypto.djb ((c.ib.drop 4).take (c.encLen env)) (c.ekC2s.take 32) (seqbuf8 c.recvSeq) 1

/-- The packet decrypted in place. -/
def SshConn.opened (env : SshEnv) (c : SshConn) : SshConn :=
  { c with ib := c.ib.take 4 ++ c.encBody env ++ c.ib.drop (4 + c.encLen env) }

/-- The encrypted branch of `try_packet`. -/
def tryEncrypted (env : SshEnv) (beyond : Nat → UInt8) (s : Ssh) : TryRes × Ssh :=
  if s.c.ib.length < 4 then (.needMore, s)
  else
    let pktLen := s.c.encLen env
    if pktLen < 8 ∨ pktLen % 8 ≠ 0 ∨ env.u (4 + pktLen + 16) > SSH_IB_SZ then
      (.failed, s.fail "bad encrypted length")
    else
      let need := env.u (4 + pktLen + 16)
      if s.c.ib.length < need then (.needMore, s)
      else if s.c.encTag env beyond ≠ slice (s.c.mem beyond) (env.u (4 + pktLen)) 16 then
        (.failed, s.fail "MAC verification failed")
      else if 4 + pktLen + 16 > SSH_IB_SZ then (.wild, s)
      else
        let wire := s.c.ib.take need
        let s := { s with c := s.c.opened env }
        let mem := s.c.mem beyond
        let padlen := (mem 4).toNat
        if padlen + 1 > pktLen then (.failed, s.fail "bad padding")
        else
          let s := s.dispatch env wire (fun k => mem (5 + k)) (pktLen - 1 - padlen)
          (.progressed, s.finish need)

/-- `try_packet`. -/
def tryPacket (env : SshEnv) (beyond : Nat → UInt8) (s : Ssh) : TryRes × Ssh :=
  if s.c.recvEncrypted then tryEncrypted env beyond s else tryPlain env beyond s

/-! ## The interface -/

/-- `ssh_reset`. -/
def sshReset (env : SshEnv) (g : SshShared) : Ssh :=
  let line := ascii SERVER_ID_CRLF
  let s : Ssh := { c := SshConn.zero, g := { g with ob := [], cin := [], cout := [] }, reads := [] }
  let s := (s.note (.ident line)).obAppend env line
  let iS := ourKexinit (env.rngBytes s.g.rngPos 16)
  let s := s.rngSkip 16
  let s := { s with c := { s.c with iS := iS } }
  s.sendUnenc env iS

/-- The body of the loop of `ssh_input`. -/
def inputStep (env : SshEnv) (beyond : Nat → UInt8) (s : Ssh) : TryRes × Ssh :=
  if s.c.state = .version then tryVersion s else tryPacket env beyond s

/-- The condition of the loop. -/
def SshConn.live (c : SshConn) : Bool := c.state ≠ .error && c.state ≠ .closed

/-- How a call of `ssh_input` ends: it returns, it decrypts over foreign memory, or it is
still in its loop when the fuel is used up. -/
inductive Outcome where
  | back (s : Ssh)
  | wild
  | running (s : Ssh)

/-- The loop of `ssh_input`, from turn `t` on.  `beyond t` is the memory behind `ib` in that
turn. -/
def inputLoop (env : SshEnv) (beyond : Nat → Nat → UInt8) : Nat → Nat → Ssh → Outcome
  | 0, _, s => if s.c.live then .running s else .back s
  | fuel + 1, t, s =>
      if s.c.live then
        match inputStep env (beyond t) s with
        | (.progressed, s) => inputLoop env beyond fuel (t + 1) s
        | (.needMore, s) => .back s
        | (.failed, s) => .back s
        | (.wild, _) => .wild
      else .back s

/-- `ssh_input`.  A chunk whose length wraps the sum is copied over foreign memory. -/
def sshInput (env : SshEnv) (beyond : Nat → Nat → UInt8) (fuel : Nat) (s : Ssh)
    (data : List UInt8) : Outcome :=
  if s.c.state = .error then .back s
  else if env.u (s.c.ib.length + data.length) > SSH_IB_SZ then .back (s.fail "input overflow")
  else if s.c.ib.length + data.length > SSH_IB_SZ then .wild
  else inputLoop env beyond fuel 0 { s with c := { s.c with ib := s.c.ib ++ data } }

/-- `ssh_output`. -/
def sshOutput (g : SshShared) (max : Nat) : List UInt8 × SshShared :=
  (g.ob.take max, { g with ob := g.ob.drop max })

/-- `ssh_discard_output`. -/
def sshDiscardOutput (g : SshShared) : SshShared := { g with ob := [] }

/-- `ssh_failed`. -/
def sshFailed (c : SshConn) : Bool := c.state = .error

end Dossh
