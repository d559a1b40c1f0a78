import Dossh.Ssh.Wire

/-!
# The session channel

The handlers of the connection protocol (RFC 4254) and the byte interface of the channel.
-/

namespace Dossh

/-- `chan_reply`. -/
def chanReply (env : SshEnv) (s : Ssh) (type : UInt8) : Ssh :=
  s.sendPacket env ([type] ++ be32 s.c.peerChan)

/-! ## Opening and requests -/

/-- `handle_channel_open` once the fields are read: refuse or confirm. -/
def channelOpenReply (env : SshEnv) (s : Ssh) (isSession : Bool) (sender iwin maxp : Nat) : Ssh :=
  if s.c.chanOpen || !isSession then
    let reason := if s.c.chanOpen then OPEN_ADMINISTRATIVELY_PROHIBITED
      else OPEN_UNKNOWN_CHANNEL_TYPE
    s.sendPacket env ([MSG_CHANNEL_OPEN_FAILURE] ++ be32 sender ++ be32 reason ++
      putNl "only one session channel" ++ putNl "")
  else
    let s := { s with c := { s.c with
      peerChan := sender, peerWindow := iwin, peerMaxpkt := maxp, localChan := 0
      localWindow := SSH_LOCAL_WINDOW, chanOpen := true } }
    s.sendPacket env ([MSG_CHANNEL_OPEN_CONFIRMATION] ++ be32 sender ++ be32 s.c.localChan ++
      be32 s.c.localWindow ++ be32 SSH_CHAN_MAXPKT)

/-- `handle_channel_open`. -/
def handleChannelOpen (env : SshEnv) (s : Ssh) (pl : Payload) : Ssh :=
  if env.u (1 + 4) > pl.len then s.fail "short CHANNEL_OPEN"
  else
    let tlen := env.u (pl.u32 1)
    let s := s.read pl 1 4
    let tname := pl.sub 5 tlen
    let o := env.u (5 + tlen)
    if env.u (o + 12) > pl.len then s.fail "bad CHANNEL_OPEN"
    else
      let s := ((s.read pl o 4).read pl (env.u (o + 4)) 4).read pl (env.u (o + 8)) 4
      let s := if !s.c.chanOpen && tlen = 7 then s.readAll tname else s
      channelOpenReply env s (tname.bytes = ascii "session")
        (pl.u32 o) (pl.u32 (env.u (o + 4))) (pl.u32 (env.u (o + 8)))

/-- The terminal size at offset `o`, if it is inside the payload. -/
def readWinsize (env : SshEnv) (s : Ssh) (pl : Payload) (o : Nat) : Ssh :=
  if env.u (o + 8) ≤ pl.len then
    let s := (s.read pl o 4).read pl (o + 4) 4
    { s with c := { s.c with
      termCols := env.u (pl.u32 o), termRows := env.u (pl.u32 (o + 4)) } }
  else s

/-- The branches of `handle_channel_request` on the request type, `o` being the offset
behind `want_reply`, and whether the request is granted. -/
def channelRequest (env : SshEnv) (s : Ssh) (pl rtype : Payload) (o : Nat) : Bool × Ssh :=
  let s := if rtype.len = 7 ∨ rtype.len = 5 ∨ rtype.len = 4 ∨ rtype.len = 13 then s.readAll rtype
    else s
  if rtype.bytes = ascii "pty-req" then
    let s := if env.u (o + 4) ≤ pl.len then
        readWinsize env (s.read pl o 4) pl (env.u (o + 4 + env.u (pl.u32 o)))
      else s
    (true, { s with c := { s.c with pty := true } })
  else if rtype.bytes = ascii "shell" ∨ rtype.bytes = ascii "exec" then
    (true, { s with c := { s.c with shellReady := true } })
  else if rtype.bytes = ascii "window-change" then (true, readWinsize env s pl o)
  else (false, s)

/-- `handle_channel_request`. -/
def handleChannelRequest (env : SshEnv) (s : Ssh) (pl : Payload) : Ssh :=
  if env.u (1 + 4) > pl.len then s
  else if env.u (5 + 4) > pl.len then s
  else
    let rtlen := env.u (pl.u32 5)
    let s := s.read pl 5 4
    let o := env.u (9 + rtlen)
    if env.u (o + 1) > pl.len then s
    else
      let wantReply := pl.get o
      let s := s.read pl o 1
      let r := channelRequest env s pl (pl.sub 9 rtlen) (env.u (o + 1))
      if wantReply ≠ 0 then
        chanReply env r.2 (if r.1 then MSG_CHANNEL_SUCCESS else MSG_CHANNEL_FAILURE)
      else r.2

/-! ## Data -/

/-- `adjust_local_window`. -/
def adjustLocalWindow (env : SshEnv) (s : Ssh) (consumed : Nat) : Ssh :=
  let s := { s with c := { s.c with localWindow := s.c.localWindow - consumed } }
  if s.c.localWindow ≥ SSH_LOCAL_WINDOW / 2 then s
  else
    let add := SSH_LOCAL_WINDOW - s.c.localWindow
    let s := s.sendPacket env ([MSG_CHANNEL_WINDOW_ADJUST] ++ be32 s.c.peerChan ++ be32 add)
    { s with c := { s.c with localWindow := s.c.localWindow + add } }

/-- One byte into the keystroke ring. -/
def Ssh.pushKey (s : Ssh) (b : UInt8) : Ssh :=
  ({ s with g := { s.g with cin := s.g.cin ++ [b] } }).note (.key b)

/-- The loop of `handle_channel_data` over `k` more bytes from offset `o` on.  A full ring
drops the rest. -/
def cinLoop (pl : Payload) : Nat → Nat → Ssh → Ssh
  | 0, _, s => s
  | k + 1, o, s =>
      if s.g.cin.length ≥ SSH_CIN_SZ - 1 then s
      else cinLoop pl k (o + 1) ((s.read pl o 1).pushKey (pl.get o))

/-- `handle_channel_data`. -/
def handleChannelData (env : SshEnv) (s : Ssh) (pl : Payload) : Ssh :=
  if pl.len < 9 then s
  else
    let dlen := env.u (pl.u32 5)
    let s := s.read pl 5 4
    let dlen := if env.u (9 + dlen) > pl.len then pl.len - 9 else dlen
    adjustLocalWindow env (cinLoop pl dlen 9 s) dlen

/-- `handle_channel_window_adjust`. -/
def handleChannelWindowAdjust (s : Ssh) (pl : Payload) : Ssh :=
  if pl.len < 9 then s
  else
    let s := s.read pl 5 4
    { s with c := { s.c with peerWindow := (s.c.peerWindow + pl.u32 5) % 4294967296 } }

/-- `handle_global_request`. -/
def handleGlobalRequest (env : SshEnv) (s : Ssh) (pl : Payload) : Ssh :=
  if env.u (1 + 4) > pl.len then s
  else
    let nlen := env.u (pl.u32 1)
    let s := s.read pl 1 4
    let o := env.u (1 + 4 + nlen)
    if o < pl.len then
      let s := s.read pl o 1
      if pl.get o ≠ 0 then s.sendPacket env [MSG_REQUEST_FAILURE] else s
    else s

/-! ## The byte interface -/

/-- `ssh_channel_ready`. -/
def sshChannelReady (c : SshConn) : Bool := c.chanOpen && c.shellReady && !c.chanClosed

/-- `ssh_channel_getc`. -/
def sshChannelGetc (g : SshShared) : Option UInt8 × SshShared :=
  match g.cin with
  | [] => (none, g)
  | b :: cin => (some b, { g with cin := cin })

/-- `ssh_channel_putc`. -/
def sshChannelPutc (s : Ssh) (b : UInt8) : Bool × Ssh :=
  if !s.c.shellReady || s.c.chanClosed then (false, s)
  else if s.g.cout.length ≥ SSH_COUT_SZ then (false, s)
  else (true, { s with g := { s.g with cout := s.g.cout ++ [b] } })

/-- The payload of a `CHANNEL_DATA` packet. -/
def channelData (c : SshConn) (data : List UInt8) : List UInt8 :=
  [MSG_CHANNEL_DATA] ++ be32 c.peerChan ++ putStr data

/-- The loop of `ssh_channel_flush`: frames staged bytes from index `sent` on.  Every turn
takes at least one byte, so as many turns as staged bytes are enough. -/
def flushLoop (env : SshEnv) : Nat → Nat → Ssh → Nat × Ssh
  | 0, sent, s => (sent, s)
  | fuel + 1, sent, s =>
      let take := min (min (min (s.g.cout.length - sent) SSH_CHAN_CHUNK) s.c.peerWindow)
        s.c.peerMaxpkt
      if take = 0 then (sent, s)
      else if s.g.ob.length + take + 64 > SSH_OB_SZ then (sent, s)
      else
        let s := s.sendPacket env (channelData s.c ((s.g.cout.drop sent).take take))
        if s.c.state = .error then (sent, s)
        else
          flushLoop env fuel (sent + take)
            { s with c := { s.c with peerWindow := s.c.peerWindow - take } }

/-- `ssh_channel_flush`. -/
def sshChannelFlush (env : SshEnv) (s : Ssh) : Ssh :=
  if !s.c.chanOpen || s.c.chanClosed then { s with g := { s.g with cout := [] } }
  else
    let r := flushLoop env s.g.cout.length 0 s
    { r.2 with g := { r.2.g with cout := r.2.g.cout.drop r.1 } }

/-- `ssh_channel_avail`. -/
def sshChannelAvail (c : SshConn) : Nat :=
  if !sshChannelReady c then 0 else min (min SSH_CHAN_CHUNK c.peerWindow) c.peerMaxpkt

/-- `ssh_channel_emit`; `none` is the result 0. -/
def sshChannelEmit (env : SshEnv) (s : Ssh) (plain : List UInt8) (outmax : Nat) :
    Option (List UInt8) × Ssh :=
  let n := plain.length
  if !sshChannelReady s.c || !s.c.sendEncrypted then (none, s)
  else if n = 0 ∨ n > SSH_CHAN_CHUNK then (none, s)
  else if n > s.c.peerWindow ∨ n > s.c.peerMaxpkt then (none, s)
  else if n + 40 > outmax then (none, s)
  else
    let pkt := channelData s.c plain
    let s := { s with c := { s.c with peerWindow := s.c.peerWindow - n } }
    let r := s.aeadSeal env pkt
    (some r.1, r.2)

/-- `ssh_winsize`. -/
def sshWinsize (c : SshConn) : Nat × Nat :=
  (if c.termCols ≠ 0 then c.termCols else 80, if c.termRows ≠ 0 then c.termRows else 25)

/-- `ssh_channel_close`. -/
def sshChannelClose (env : SshEnv) (s : Ssh) : Ssh :=
  if !s.c.chanOpen || s.c.chanSentClose then s
  else
    let s := sshChannelFlush env s
    let s := if s.c.shellReady then
        s.sendPacket env ([MSG_CHANNEL_REQUEST] ++ be32 s.c.peerChan ++ putNl "exit-status" ++
          [0] ++ be32 0)
      else s
    let s := if !s.c.chanSentEof then
        let s := s.sendPacket env ([MSG_CHANNEL_EOF] ++ be32 s.c.peerChan)
        { s with c := { s.c with chanSentEof := true } }
      else s
    let s := s.sendPacket env ([MSG_CHANNEL_CLOSE] ++ be32 s.c.peerChan)
    { s with c := { s.c with chanSentClose := true, chanClosed := true } }

end Dossh
