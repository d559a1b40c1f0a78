import Dossh.Ssh.Transport

/-!
# What the handlers leave alone

Most of what `ssh.c` does with a packet is to frame replies and to set fields that neither
decoding nor authentication reads.  `Ssh.Tame` is the relation between a connection before and
after such a call, and `Ssh.Works` the weaker one for calls that work on the channel of an
authenticated connection.  The handlers of the key exchange move the handshake on; their
lemmas say from where to where.
-/

namespace Dossh

/-! ## Relations -/

/-- The part of a connection that decoding and authentication rest on, without the keys. -/
abbrev SshConn.core (c : SshConn) : List UInt8 × BitVec 32 × Bool × Bool :=
  (c.ib, c.recvSeq, c.recvEncrypted, c.authenticated)

/-- The result of the key exchange. -/
abbrev SshConn.keys (c : SshConn) : List UInt8 × List UInt8 × Bool :=
  (c.ekC2s, c.sessionId, c.haveSessionId)

def SshEvent.isFrame : SshEvent → Bool
  | .frame _ _ _ _ => true
  | _ => false

/-- The events a handler causes. -/
def SshEvent.inner : SshEvent → Bool
  | .packet _ _ _ _ _ _ => false
  | _ => true

theorem SshEvent.inner_of_isFrame {e : SshEvent} (h : e.isFrame = true) : e.inner = true := by
  cases e with
  | packet => cases h
  | _ => rfl

/-- The new events of a call, all of them satisfying `p`. -/
def Ssh.Logs (p : SshEvent → Bool) (s s' : Ssh) : Prop :=
  ∃ es, s'.c.trace = es ++ s.c.trace ∧ ∀ e ∈ es, p e = true

/-- The call kept the state of the connection or ended it. -/
def Ssh.Settles (s s' : Ssh) : Prop :=
  s'.c.state = s.c.state ∨ s'.c.state = .error ∨ s'.c.state = .closed

/-- Nothing but frames came of the call, whatever it did to the state and the keys. -/
structure Ssh.Calm (s s' : Ssh) : Prop where
  core : s'.c.core = s.c.core
  chanOpen : s'.c.chanOpen = s.c.chanOpen
  logs : s.Logs SshEvent.isFrame s'

/-- The call neither moved the handshake on nor granted anything. -/
structure Ssh.Tame (s s' : Ssh) : Prop extends Ssh.Calm s s' where
  keys : s'.c.keys = s.c.keys
  settles : s.Settles s'

/-- The call worked on the channel of an authenticated connection. -/
structure Ssh.Works (s s' : Ssh) : Prop where
  core : s'.c.core = s.c.core
  keys : s'.c.keys = s.c.keys
  settles : s.Settles s'
  logs : s.Logs SshEvent.inner s'

namespace Ssh

theorem Logs.refl (p : SshEvent → Bool) (s : Ssh) : s.Logs p s := ⟨[], rfl, by simp⟩

theorem Logs.trans {p : SshEvent → Bool} {s s' s'' : Ssh} (h : s.Logs p s') (h' : s'.Logs p s'') :
    s.Logs p s'' := by
  obtain ⟨es, htr, hes⟩ := h
  obtain ⟨es', htr', hes'⟩ := h'
  refine ⟨es' ++ es, by rw [htr', htr, List.append_assoc], fun e he => ?_⟩
  rcases List.mem_append.mp he with he' | he'
  · exact hes' e he'
  · exact hes e he'

theorem Logs.mono {p q : SshEvent → Bool} {s s' : Ssh} (h : s.Logs p s')
    (hpq : ∀ e, p e = true → q e = true) : s.Logs q s' := by
  obtain ⟨es, htr, hes⟩ := h
  exact ⟨es, htr, fun e he => hpq e (hes e he)⟩

/-- Old events stay. -/
theorem Logs.mem {p : SshEvent → Bool} {s s' : Ssh} (h : s.Logs p s') {e : SshEvent}
    (he : e ∈ s.c.trace) : e ∈ s'.c.trace := by
  obtain ⟨es, htr, -⟩ := h
  rw [htr]
  exact List.mem_append_right _ he

/-- An event of another kind is old. -/
theorem Logs.old {p : SshEvent → Bool} {s s' : Ssh} (h : s.Logs p s') {e : SshEvent}
    (he : e ∈ s'.c.trace) (hp : p e = false) : e ∈ s.c.trace := by
  obtain ⟨es, htr, hes⟩ := h
  rw [htr] at he
  rcases List.mem_append.mp he with he' | he'
  · rw [hes e he'] at hp
    cases hp
  · exact he'

theorem Settles.trans {s s' s'' : Ssh} (h : s.Settles s') (h' : s'.Settles s'') :
    s.Settles s'' := by
  rcases h' with h' | h'
  · rcases h with h | h
    · exact .inl (h'.trans h)
    · rw [← h'] at h
      exact .inr h
  · exact .inr h'

theorem Calm.trans {s s' s'' : Ssh} (h : s.Calm s') (h' : s'.Calm s'') : s.Calm s'' :=
  ⟨h'.core.trans h.core, h'.chanOpen.trans h.chanOpen, h.logs.trans h'.logs⟩

theorem Tame.trans {s s' s'' : Ssh} (h : s.Tame s') (h' : s'.Tame s'') : s.Tame s'' :=
  ⟨h.toCalm.trans h'.toCalm, h'.keys.trans h.keys, h.settles.trans h'.settles⟩

/-- A call after an earlier one, with the later call given first. -/
theorem Calm.before {s s' s'' : Ssh} (h' : s'.Calm s'') (h : s.Calm s') : s.Calm s'' := h.trans h'

theorem Tame.before {s s' s'' : Ssh} (h' : s'.Tame s'') (h : s.Tame s') : s.Tame s'' := h.trans h'

theorem Works.trans {s s' s'' : Ssh} (h : s.Works s') (h' : s'.Works s'') : s.Works s'' :=
  ⟨h'.core.trans h.core, h'.keys.trans h.keys, h.settles.trans h'.settles, h.logs.trans h'.logs⟩

theorem Tame.works {s s' : Ssh} (h : s.Tame s') : s.Works s' :=
  ⟨h.core, h.keys, h.settles, h.logs.mono fun _ => SshEvent.inner_of_isFrame⟩

/-- A call that does not touch the connection. -/
theorem Tame.of_conn {s s' : Ssh} (h : s'.c = s.c) : s.Tame s' :=
  ⟨⟨by rw [h], by rw [h], ⟨[], by rw [h]; rfl, by simp⟩⟩, by rw [h], .inl (by rw [h])⟩

theorem Tame.refl (s : Ssh) : s.Tame s := .of_conn rfl

theorem Calm.of_conn {s s' : Ssh} (h : s'.c = s.c) : s.Calm s' := (Tame.of_conn h).toCalm

/-- An assignment to fields of the connection that nothing here reads. -/
theorem Tame.of_fields {s s' : Ssh} (hcore : s'.c.core = s.c.core)
    (hchan : s'.c.chanOpen = s.c.chanOpen) (htrace : s'.c.trace = s.c.trace)
    (hkeys : s'.c.keys = s.c.keys) (hstate : s'.c.state = s.c.state) : s.Tame s' :=
  ⟨⟨hcore, hchan, ⟨[], htrace, by simp⟩⟩, hkeys, .inl hstate⟩

/-! ## Reading and sending -/

@[simp] theorem read_conn (s : Ssh) (p : Payload) (o n : Nat) : (s.read p o n).c = s.c := rfl

@[simp] theorem readAll_conn (s : Ssh) (p : Payload) : (s.readAll p).c = s.c := rfl

@[simp] theorem readString_conn (s : Ssh) (p : Payload) (o : Nat) : (s.readString p o).c = s.c := by
  unfold readString
  split <;> rfl

@[simp] theorem readBlob_conn (s : Ssh) (p : Payload) : (s.readBlob p).c = s.c := by
  unfold readBlob
  dsimp only
  repeat' split
  all_goals simp

@[simp] theorem readMethod_conn (s : Ssh) (p : Payload) (n : Nat) : (s.readMethod p n).c = s.c := by
  unfold readMethod
  split <;> rfl

@[simp] theorem readNlHas_conn (s : Ssh) (p : Payload) (name : String) :
    (s.readNlHas p name).c = s.c := rfl

@[simp] theorem readNlFirst_conn (s : Ssh) (p : Payload) : (s.readNlFirst p).c = s.c := rfl

theorem Tame.fail (s : Ssh) (why : String) : s.Tame (s.fail why) := by
  unfold Ssh.fail
  split
  · exact ⟨⟨rfl, rfl, Logs.refl _ s⟩, rfl, .inr (.inl rfl)⟩
  · exact .refl s

theorem Tame.obAppend (env : SshEnv) (s : Ssh) (d : List UInt8) : s.Tame (s.obAppend env d) := by
  unfold Ssh.obAppend
  split
  · exact (Tame.fail s _).trans (.of_conn rfl)
  · exact .of_conn rfl

theorem Tame.rngSkip (s : Ssh) (n : Nat) : s.Tame (s.rngSkip n) := .of_conn rfl

theorem Tame.framed (s : Ssh) (enc : Bool) (payload bytes : List UInt8) :
    s.Tame (s.framed enc payload bytes) :=
  ⟨⟨rfl, rfl, ⟨[.frame enc s.c.sendSeq payload bytes], rfl, by simp [SshEvent.isFrame]⟩⟩, rfl,
    .inl rfl⟩

theorem Tame.sendUnenc (env : SshEnv) (s : Ssh) (payload : List UInt8) :
    s.Tame (s.sendUnenc env payload) :=
  .trans (.obAppend env s _) (.trans (.obAppend env _ _) (.trans (.rngSkip _ _)
    (.trans (.obAppend env _ _) (.framed _ false payload _))))

theorem Tame.aeadSeal (env : SshEnv) (s : Ssh) (payload : List UInt8) :
    s.Tame (s.aeadSeal env payload).2 :=
  .trans (.rngSkip s _) (.framed _ true payload _)

theorem Tame.sendEnc (env : SshEnv) (s : Ssh) (payload : List UInt8) :
    s.Tame (s.sendEnc env payload) := by
  unfold Ssh.sendEnc
  split
  · exact .fail s _
  · exact .trans (.aeadSeal env s payload) (.obAppend env _ _)

theorem Tame.sendPacket (env : SshEnv) (s : Ssh) (payload : List UInt8) :
    s.Tame (s.sendPacket env payload) := by
  unfold Ssh.sendPacket
  split
  · exact .sendEnc env s payload
  · exact .sendUnenc env s payload

end Ssh

/-! ## Key exchange -/

open Ssh

theorem negCheck_tame (s : Ssh) (first : UInt8) (kex hk enc1 enc2 : Payload) :
    s.Tame (negCheck s first kex hk enc1 enc2).2 := by
  unfold negCheck
  dsimp only
  repeat' split
  all_goals exact .of_fields rfl rfl rfl rfl rfl

theorem negotiate_tame (env : SshEnv) (s : Ssh) (pl : Payload) : s.Tame (negotiate env s pl).2 := by
  unfold negotiate
  dsimp only
  split
  · exact .of_conn rfl
  · split
    · exact .of_conn rfl
    · exact (negCheck_tame _ _ _ _ _ _).before (.of_fields rfl rfl rfl rfl rfl)

/-- `handle_kexinit` either fails or moves on to the client's ephemeral key. -/
theorem handleKexinit_cases (env : SshEnv) (s : Ssh) (pl : Payload) :
    s.Tame (handleKexinit env s pl) ∨
    (s.Calm (handleKexinit env s pl) ∧ (handleKexinit env s pl).c.keys = s.c.keys ∧
      (handleKexinit env s pl).c.state = .expectEcdhInit) := by
  have hneg := negotiate_tame env s pl
  unfold handleKexinit
  split
  next s' heq =>
    rw [heq] at hneg
    exact .inl (hneg.trans (.fail _ _))
  next s' heq =>
    rw [heq] at hneg
    exact .inl (hneg.trans (.fail _ _))
  next s' heq =>
    rw [heq] at hneg
    exact .inr ⟨hneg.toCalm.trans ⟨rfl, rfl, Logs.refl _ s'⟩, hneg.keys, rfl⟩

theorem ecdhReply_calm (env : SshEnv) (s : Ssh) (qC qS raw : List UInt8) :
    s.Calm (ecdhReply env s qC qS raw) := by
  unfold ecdhReply
  dsimp only
  refine @Calm.before _ (Ssh.sendPacket env _ _) _ ⟨rfl, rfl, Logs.refl _ _⟩ ?_
  refine (Tame.sendPacket env _ _).toCalm.before ?_
  refine @Calm.before _ (Ssh.sendPacket env _ _) _ ⟨rfl, rfl, ⟨[], rfl, by simp⟩⟩ ?_
  exact (Tame.sendPacket env _ _).toCalm.before ⟨rfl, rfl, Logs.refl _ s⟩

/-- `handle_ecdh_init` either stays or moves on to the client's `NEWKEYS`. -/
theorem handleEcdhInit_cases (env : SshEnv) (s : Ssh) (pl : Payload) :
    s.Tame (handleEcdhInit env s pl) ∨
    (s.Calm (handleEcdhInit env s pl) ∧
      (handleEcdhInit env s pl).c.state = .expectClientNewkeys) := by
  unfold handleEcdhInit
  dsimp only
  split
  · exact .inl (.of_fields rfl rfl rfl rfl rfl)
  · split
    · exact .inl (.fail s _)
    · split
      · exact .inl ((Tame.fail _ _).before (.of_conn rfl))
      · split
        · exact .inl ((Tame.fail _ _).before (.of_conn rfl))
        · exact .inr ⟨(ecdhReply_calm env _ _ _ _).before (.of_conn rfl), rfl⟩

/-- `handle_service_request` either fails or moves on to authentication. -/
theorem handleServiceRequest_cases (env : SshEnv) (s : Ssh) (pl : Payload) :
    s.Tame (handleServiceRequest env s pl) ∨
    (s.Calm (handleServiceRequest env s pl) ∧ (handleServiceRequest env s pl).c.keys = s.c.keys ∧
      (handleServiceRequest env s pl).c.state = .auth) := by
  unfold handleServiceRequest
  dsimp only
  split
  · exact .inl (.fail s _)
  · split
    · exact .inl ((Tame.fail _ _).before (.of_conn rfl))
    · generalize hs' : Ssh.sendPacket env _ _ = s'
      have htame : s.Tame s' := by
        rw [← hs']
        exact (Tame.sendPacket env _ _).before (.of_fields rfl rfl rfl rfl rfl)
      exact .inr ⟨htame.toCalm.trans ⟨rfl, rfl, Logs.refl _ s'⟩, htame.keys, rfl⟩

/-! ## The channel -/

namespace Ssh

/-- An assignment to fields of the channel. -/
theorem Works.of_fields {s s' : Ssh} (hcore : s'.c.core = s.c.core) (hkeys : s'.c.keys = s.c.keys)
    (htrace : s'.c.trace = s.c.trace) (hstate : s'.c.state = s.c.state) : s.Works s' :=
  ⟨hcore, hkeys, .inl hstate, ⟨[], htrace, by simp⟩⟩

theorem Works.before {s s' s'' : Ssh} (h' : s'.Works s'') (h : s.Works s') : s.Works s'' :=
  h.trans h'

theorem Works.refl (s : Ssh) : s.Works s := (Tame.refl s).works

theorem Works.sendPacket (env : SshEnv) (s : Ssh) (payload : List UInt8) :
    s.Works (s.sendPacket env payload) := (Tame.sendPacket env s payload).works

theorem Works.fail (s : Ssh) (why : String) : s.Works (s.fail why) := (Tame.fail s why).works

theorem Works.of_conn {s s' : Ssh} (h : s'.c = s.c) : s.Works s' := (Tame.of_conn h).works

theorem Works.winsize (s : Ssh) (cols rows : Nat) :
    s.Works { s with c := { s.c with termCols := cols, termRows := rows } } :=
  .of_fields rfl rfl rfl rfl

theorem Works.pty (s : Ssh) : s.Works { s with c := { s.c with pty := true } } :=
  .of_fields rfl rfl rfl rfl

theorem Works.peerWindow (s : Ssh) (window : Nat) :
    s.Works { s with c := { s.c with peerWindow := window } } :=
  .of_fields rfl rfl rfl rfl

theorem Works.localWindow (s : Ssh) (window : Nat) :
    s.Works { s with c := { s.c with localWindow := window } } :=
  .of_fields rfl rfl rfl rfl

theorem Works.pushKey (s : Ssh) (b : UInt8) : s.Works (s.pushKey b) :=
  ⟨rfl, rfl, .inl rfl, ⟨[.key b], rfl, by simp [SshEvent.inner]⟩⟩

end Ssh

theorem channelOpenReply_works (env : SshEnv) (s : Ssh) (isSession : Bool)
    (sender iwin maxp : Nat) : s.Works (channelOpenReply env s isSession sender iwin maxp) := by
  unfold channelOpenReply
  dsimp only
  split
  · exact .sendPacket env s _
  · exact (Works.sendPacket env _ _).before (.of_fields rfl rfl rfl rfl)

theorem handleChannelOpen_works (env : SshEnv) (s : Ssh) (pl : Payload) :
    s.Works (handleChannelOpen env s pl) := by
  unfold handleChannelOpen
  dsimp only
  split
  · exact .fail s _
  · split
    · exact (Works.fail _ _).before (.of_fields rfl rfl rfl rfl)
    · refine (channelOpenReply_works env _ _ _ _ _).before ?_
      split
      · exact .of_fields rfl rfl rfl rfl
      · exact .of_fields rfl rfl rfl rfl

theorem readWinsize_works (env : SshEnv) (s : Ssh) (pl : Payload) (o : Nat) :
    s.Works (readWinsize env s pl o) := by
  unfold readWinsize
  split
  · exact (Works.winsize _ _ _).before (.of_conn rfl)
  · exact .refl s

theorem channelRequest_works (env : SshEnv) (s : Ssh) (pl rtype : Payload) (o : Nat) :
    s.Works (channelRequest env s pl rtype o).2 := by
  unfold channelRequest
  dsimp only
  generalize hs' : (if rtype.len = 7 ∨ rtype.len = 5 ∨ rtype.len = 4 ∨ rtype.len = 13
    then s.readAll rtype else s) = s'
  have hread : s.Works s' := by
    rw [← hs']
    split
    · exact .of_fields rfl rfl rfl rfl
    · exact .refl s
  refine hread.trans ?_
  split
  · split
    · exact (Works.pty _).before ((readWinsize_works env _ pl _).before (.of_conn rfl))
    · exact .pty s'
  · split
    · exact .of_fields rfl rfl rfl rfl
    · split
      · exact readWinsize_works env _ pl o
      · exact .refl _

theorem handleChannelRequest_works (env : SshEnv) (s : Ssh) (pl : Payload) :
    s.Works (handleChannelRequest env s pl) := by
  unfold handleChannelRequest
  dsimp only
  split
  · exact .refl s
  · split
    · exact .refl s
    · split
      · exact .of_fields rfl rfl rfl rfl
      · have hreq := (channelRequest_works env ((s.read pl 5 4).read pl
          (env.u (9 + env.u (pl.u32 5))) 1) pl (pl.sub 9 (env.u (pl.u32 5)))
          (env.u (env.u (9 + env.u (pl.u32 5)) + 1))).before (s := s) (.of_fields rfl rfl rfl rfl)
        split
        · exact hreq.trans (.sendPacket env _ _)
        · exact hreq

theorem cinLoop_works (pl : Payload) : ∀ (k o : Nat) (s : Ssh), s.Works (cinLoop pl k o s)
  | 0, _, s => .refl s
  | k + 1, o, s => by
      rw [cinLoop]
      split
      · exact .refl s
      · refine (cinLoop_works pl k (o + 1) _).before ?_
        exact (Works.pushKey _ _).before (.of_fields rfl rfl rfl rfl)

theorem adjustLocalWindow_works (env : SshEnv) (s : Ssh) (consumed : Nat) :
    s.Works (adjustLocalWindow env s consumed) := by
  unfold adjustLocalWindow
  dsimp only
  split
  · exact .localWindow s _
  · refine (Works.localWindow _ _).before ?_
    exact (Works.sendPacket env _ _).before (.localWindow s _)

theorem handleChannelData_works (env : SshEnv) (s : Ssh) (pl : Payload) :
    s.Works (handleChannelData env s pl) := by
  unfold handleChannelData
  dsimp only
  split
  · exact .refl s
  · refine (adjustLocalWindow_works env _ _).before ?_
    exact (cinLoop_works pl _ _ _).before (.of_fields rfl rfl rfl rfl)

theorem handleChannelWindowAdjust_works (s : Ssh) (pl : Payload) :
    s.Works (handleChannelWindowAdjust s pl) := by
  unfold handleChannelWindowAdjust
  dsimp only
  split
  · exact .refl s
  · exact (Works.peerWindow _ _).before (.of_conn rfl)

/-! ## The byte interface -/

theorem Ssh.Tame.peerWindow (s : Ssh) (window : Nat) :
    s.Tame { s with c := { s.c with peerWindow := window } } :=
  .of_fields rfl rfl rfl rfl rfl

theorem flushLoop_tame (env : SshEnv) : ∀ (fuel sent : Nat) (s : Ssh),
    s.Tame (flushLoop env fuel sent s).2
  | 0, _, s => .refl s
  | fuel + 1, sent, s => by
      rw [flushLoop]
      dsimp only
      split
      · exact .refl s
      · split
        · exact .refl s
        · split
          · exact .sendPacket env s _
          · refine (flushLoop_tame env fuel _ _).before ?_
            exact (Tame.sendPacket env s _).trans (.peerWindow _ _)

theorem sshChannelFlush_tame (env : SshEnv) (s : Ssh) : s.Tame (sshChannelFlush env s) := by
  unfold sshChannelFlush
  dsimp only
  split
  · exact .of_conn rfl
  · exact (flushLoop_tame env _ _ s).trans (.of_conn rfl)

theorem Ssh.Tame.sentEof (s : Ssh) : s.Tame { s with c := { s.c with chanSentEof := true } } :=
  .of_fields rfl rfl rfl rfl rfl

theorem Ssh.Tame.sentClose (s : Ssh) :
    s.Tame { s with c := { s.c with chanSentClose := true, chanClosed := true } } :=
  .of_fields rfl rfl rfl rfl rfl

theorem sshChannelClose_tame (env : SshEnv) (s : Ssh) : s.Tame (sshChannelClose env s) := by
  unfold sshChannelClose
  dsimp only
  split
  · exact .refl s
  · refine (Tame.sentClose _).before ((Tame.sendPacket env _ _).before ?_)
    generalize hs' : (if (sshChannelFlush env s).c.shellReady = true then _ else _) = s'
    have hexit : s.Tame s' := by
      rw [← hs']
      split
      · exact (sshChannelFlush_tame env s).trans (.sendPacket env _ _)
      · exact sshChannelFlush_tame env s
    refine hexit.trans ?_
    split
    · exact (Tame.sendPacket env s' _).trans (.sentEof _)
    · exact .refl s'

theorem sshChannelEmit_tame (env : SshEnv) (s : Ssh) (plain : List UInt8) (outmax : Nat) :
    s.Tame (sshChannelEmit env s plain outmax).2 := by
  unfold sshChannelEmit
  dsimp only
  repeat' split
  all_goals first
    | exact .refl s
    | exact (Tame.aeadSeal env _ _).before (.peerWindow s _)

theorem sshChannelPutc_tame (s : Ssh) (b : UInt8) : s.Tame (sshChannelPutc s b).2 := by
  unfold sshChannelPutc
  repeat' split
  all_goals exact .of_conn rfl

/-! ## Any time, and the session -/

theorem handleGlobalRequest_tame (env : SshEnv) (s : Ssh) (pl : Payload) :
    s.Tame (handleGlobalRequest env s pl) := by
  unfold handleGlobalRequest
  dsimp only
  split
  · exact .refl s
  · split
    · split
      · exact (Tame.sendPacket env _ _).before (.of_conn rfl)
      · exact .of_conn rfl
    · exact .of_conn rfl

/-- The messages of the session work on the channel. -/
theorem handleSession_works (env : SshEnv) (s : Ssh) (pl : Payload) (msg : UInt8) :
    s.Works (handleSession env s pl msg) := by
  unfold handleSession
  dsimp only
  split
  · exact handleChannelOpen_works env s pl
  · split
    · exact handleChannelRequest_works env s pl
    · split
      · exact handleChannelData_works env s pl
      · split
        · exact handleChannelWindowAdjust_works s pl
        · split
          · exact .of_fields rfl rfl rfl rfl
          · split
            · generalize hs' : (if (!s.c.chanSentClose) = true then _ else _) = s'
              have hclose : s.Works s' := by
                rw [← hs']
                split
                · exact (sshChannelClose_tame env s).works
                · exact .refl s
              exact hclose.trans ⟨rfl, rfl, .inr (.inr rfl), ⟨[], rfl, by simp⟩⟩
            · exact .refl s

end Dossh
