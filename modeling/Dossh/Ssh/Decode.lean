import Dossh.Ssh.Run

/-!
# Decoding without handling

`try_packet` decodes the packet in front of the buffer and calls `handle_packet` on it.  Here
the two are taken apart: `decode` is everything up to the call, and `tryPacketWith` puts
another handler in its place.
-/

namespace Dossh

open Ssh

/-- What `try_packet` finds in front of the buffer: with a packet comes the connection the
handler is called with, the wire bytes, the payload, and the bytes to consume. -/
inductive Decoded where
  | needMore
  | failed (c : SshConn) (why : String)
  | wild
  | packet (c : SshConn) (wire : List UInt8) (pl : Payload) (need : Nat)

/-- The plaintext branch up to the call of `handle_packet`. -/
def decodePlain (env : SshEnv) (beyond : Nat → UInt8) (c : SshConn) : Decoded :=
  if c.ib.length < 4 then .needMore
  else
    let mem := c.mem beyond
    let pktLen := env.u (rd32 mem 0)
    if pktLen < 1 ∨ env.u (pktLen + 4) > SSH_IB_SZ then .failed c "packet too large"
    else
      let need := env.u (4 + pktLen)
      if c.ib.length < need then .needMore
      else
        let padlen := (mem 4).toNat
        if padlen + 1 > pktLen then .failed c "bad padding"
        else .packet c (c.ib.take need) ⟨fun k => mem (5 + k), 0, pktLen - 1 - padlen⟩ need

/-- The encrypted branch up to the call of `handle_packet`. -/
def decodeEncrypted (env : SshEnv) (beyond : Nat → UInt8) (c : SshConn) : Decoded :=
  if c.ib.length < 4 then .needMore
  else
    let pktLen := c.encLen env
    if pktLen < 8 ∨ pktLen % 8 ≠ 0 ∨ env.u (4 + pktLen + 16) > SSH_IB_SZ then
      .failed c "bad encrypted length"
    else
      let need := env.u (4 + pktLen + 16)
      if c.ib.length < need then .needMore
      else if c.encTag env beyond ≠ slice (c.mem beyond) (env.u (4 + pktLen)) 16 then
        .failed c "MAC verification failed"
      else if 4 + pktLen + 16 > SSH_IB_SZ then .wild
      else
        let c' := c.opened env
        let mem := c'.mem beyond
        let padlen := (mem 4).toNat
        if padlen + 1 > pktLen then .failed c' "bad padding"
        else .packet c' (c.ib.take need) ⟨fun k => mem (5 + k), 0, pktLen - 1 - padlen⟩ need

/-- `try_packet` up to the call of `handle_packet`. -/
def decode (env : SshEnv) (beyond : Nat → UInt8) (c : SshConn) : Decoded :=
  if c.recvEncrypted then decodeEncrypted env beyond c else decodePlain env beyond c

/-- Handle what was found. -/
def Decoded.run (handle : Ssh → Payload → Ssh) (s : Ssh) : Decoded → TryRes × Ssh
  | .needMore => (.needMore, s)
  | .failed c why => (.failed, { s with c := c }.fail why)
  | .wild => (.wild, s)
  | .packet c wire pl need =>
      let s := { s with c := c }
      let s := s.note (s.packetEvent wire pl.bytes)
      (.progressed, (handle { s with reads := [] } pl).finish need)

/-- `try_packet` with another handler. -/
def tryPacketWith (handle : Ssh → Payload → Ssh) (env : SshEnv) (beyond : Nat → UInt8) (s : Ssh) :
    TryRes × Ssh :=
  (decode env beyond s.c).run handle s

theorem decodePlain_run (env : SshEnv) (beyond : Nat → UInt8) (s : Ssh) :
    (decodePlain env beyond s.c).run (handlePacket env) s = tryPlain env beyond s := by
  unfold decodePlain tryPlain
  dsimp only
  rcases Classical.em (s.c.ib.length < 4) with h4 | h4
  · rw [if_pos h4, if_pos h4]
    rfl
  rw [if_neg h4, if_neg h4]
  generalize env.u (rd32 (s.c.mem beyond) 0) = pktLen
  rcases Classical.em (pktLen < 1 ∨ env.u (pktLen + 4) > SSH_IB_SZ) with hlen | hlen
  · rw [if_pos hlen, if_pos hlen]
    rfl
  rw [if_neg hlen, if_neg hlen]
  rcases Classical.em (s.c.ib.length < env.u (4 + pktLen)) with hneed | hneed
  · rw [if_pos hneed, if_pos hneed]
    rfl
  rw [if_neg hneed, if_neg hneed]
  rcases Classical.em ((s.c.mem beyond 4).toNat + 1 > pktLen) with hpad | hpad
  · rw [if_pos hpad, if_pos hpad]
    rfl
  · rw [if_neg hpad, if_neg hpad]
    rfl

theorem decodeEncrypted_run (env : SshEnv) (beyond : Nat → UInt8) (s : Ssh) :
    (decodeEncrypted env beyond s.c).run (handlePacket env) s = tryEncrypted env beyond s := by
  unfold decodeEncrypted tryEncrypted
  dsimp only
  rcases Classical.em (s.c.ib.length < 4) with h4 | h4
  · rw [if_pos h4, if_pos h4]
    rfl
  rw [if_neg h4, if_neg h4]
  generalize s.c.encLen env = pktLen
  rcases Classical.em (pktLen < 8 ∨ pktLen % 8 ≠ 0 ∨ env.u (4 + pktLen + 16) > SSH_IB_SZ) with
    hlen | hlen
  · rw [if_pos hlen, if_pos hlen]
    rfl
  rw [if_neg hlen, if_neg hlen]
  rcases Classical.em (s.c.ib.length < env.u (4 + pktLen + 16)) with hneed | hneed
  · rw [if_pos hneed, if_pos hneed]
    rfl
  rw [if_neg hneed, if_neg hneed]
  rcases Classical.em (s.c.encTag env beyond ≠
    slice (s.c.mem beyond) (env.u (4 + pktLen)) 16) with htag | htag
  · rw [if_pos htag, if_pos htag]
    rfl
  rw [if_neg htag, if_neg htag]
  rcases Classical.em (4 + pktLen + 16 > SSH_IB_SZ) with hwraps | hwraps
  · rw [if_pos hwraps, if_pos hwraps]
    rfl
  rw [if_neg hwraps, if_neg hwraps]
  rcases Classical.em (((s.c.opened env).mem beyond 4).toNat + 1 > pktLen) with hpad | hpad
  · rw [if_pos hpad, if_pos hpad]
    rfl
  · rw [if_neg hpad, if_neg hpad]
    rfl

/-- With its own handler it is `try_packet`. -/
theorem tryPacketWith_handlePacket (env : SshEnv) (beyond : Nat → UInt8) (s : Ssh) :
    tryPacketWith (handlePacket env) env beyond s = tryPacket env beyond s := by
  unfold tryPacketWith tryPacket decode
  split
  · exact decodeEncrypted_run env beyond s
  · exact decodePlain_run env beyond s

/-- The connection a decoder hands on. -/
def Decoded.conn? : Decoded → Option SshConn
  | .failed c _ => some c
  | .packet c _ _ _ => some c
  | _ => none

/-- Decoding changes nothing but the input buffer. -/
theorem decode_conn {env : SshEnv} {beyond : Nat → UInt8} {c c' : SshConn}
    (h : (decode env beyond c).conn? = some c') : c' = { c with ib := c'.ib } := by
  generalize hd : decode env beyond c = d at h
  unfold decode decodeEncrypted decodePlain at hd
  dsimp only at hd
  repeat' split at hd
  all_goals
    subst hd
    cases h
  all_goals rfl

end Dossh
