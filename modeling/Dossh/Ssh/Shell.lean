import Dossh.Ssh.Output

/-!
# The shell of a connection that stages nothing

The worker for several clients hands the screen to `ssh_channel_emit` and never calls
`ssh_channel_putc`, so `g_cout` stays empty.  Then no call but `ssh_channel_emit` sends data on the
channel.  And a channel that is open, has a shell or is closed stays so.
-/

namespace Dossh

open Ssh

/-- How far the channel has come. -/
abbrev SshConn.flags (c : SshConn) : Bool × Bool × Bool × Bool :=
  (c.chanOpen, c.shellReady, c.chanSentClose, c.chanClosed)

/-- The channel went on, no data was sent and none is staged. -/
structure Ssh.Advanced (s s' : Ssh) : Prop where
  cout : s'.g.cout = []
  data : dataOf s'.c.trace = dataOf s.c.trace
  opened : s.c.chanOpen = true → s'.c.chanOpen = true
  ready : s.c.shellReady = true → s'.c.shellReady = true
  closed : s.c.chanClosed = true → s'.c.chanClosed = true
  sentClose : s'.c.chanSentClose = true → s.c.chanSentClose = true ∨ s'.c.chanClosed = true

/-- If nothing is staged, the channel goes on. -/
def Ssh.Advances (s s' : Ssh) : Prop := s.g.cout = [] → s.Advanced s'

namespace Ssh.Advances

variable {env : SshEnv} {s s' s'' : Ssh}

theorem of_flags (hcout : s'.g.cout = s.g.cout) (hdata : dataOf s'.c.trace = dataOf s.c.trace)
    (hflags : s'.c.flags = s.c.flags) : s.Advances s' := by
  intro hnil
  simp only [SshConn.flags, Prod.mk.injEq] at hflags
  obtain ⟨hopen, hshell, hsent, hclosed⟩ := hflags
  refine ⟨hcout.trans hnil, hdata, ?_, ?_, ?_, ?_⟩
  · exact fun h => hopen.trans h
  · exact fun h => hshell.trans h
  · exact fun h => hclosed.trans h
  · exact fun h => .inl (hsent.symm.trans h)

theorem of_conn (hc : s'.c = s.c) (hg : s'.g.cout = s.g.cout) : s.Advances s' :=
  .of_flags hg (by rw [hc]) (by rw [hc])

theorem refl (s : Ssh) : s.Advances s := .of_conn rfl rfl

theorem trans (h : s.Advances s') (h' : s'.Advances s'') : s.Advances s'' := by
  intro hnil
  have h₁ := h hnil
  have h₂ := h' h₁.cout
  refine ⟨h₂.cout, h₂.data.trans h₁.data, fun ho => h₂.opened (h₁.opened ho),
    fun hr => h₂.ready (h₁.ready hr), fun hc => h₂.closed (h₁.closed hc), fun hs => ?_⟩
  rcases h₂.sentClose hs with hs' | hc
  · rcases h₁.sentClose hs' with hs'' | hc
    · exact .inl hs''
    · exact .inr (h₂.closed hc)
  · exact .inr hc

/-- The later call given first. -/
theorem before (h' : s'.Advances s'') (h : s.Advances s') : s.Advances s'' := h.trans h'

theorem fail (s : Ssh) (why : String) : s.Advances (s.fail why) := by
  unfold Ssh.fail
  split
  · exact .of_flags rfl rfl rfl
  · exact .refl s

theorem obAppend_cout (env : SshEnv) (s : Ssh) (d : List UInt8) :
    (s.obAppend env d).g.cout = s.g.cout := by
  unfold Ssh.obAppend
  split <;> rfl

theorem sendPacket_cout (env : SshEnv) (s : Ssh) (payload : List UInt8) :
    (s.sendPacket env payload).g.cout = s.g.cout := by
  unfold Ssh.sendPacket
  split
  · unfold Ssh.sendEnc
    split
    · unfold Ssh.fail
      split <;> rfl
    · exact obAppend_cout env _ _
  · unfold Ssh.sendUnenc
    dsimp only
    generalize be32 _ ++ [UInt8.ofNat _] = hdr
    have h₂ := (obAppend_cout env (s.obAppend env hdr) payload).trans (obAppend_cout env s hdr)
    generalize (s.obAppend env hdr).obAppend env payload = s₂ at h₂ ⊢
    generalize env.rngBytes s.g.rngPos _ = pad
    generalize padLen (4 + 1 + payload.length) = padlen
    have h₃ : ((s₂.rngSkip padlen).obAppend env pad).g.cout = s₂.g.cout := obAppend_cout env _ pad
    generalize (s₂.rngSkip padlen).obAppend env pad = s₃ at h₃ ⊢
    exact h₃.trans h₂

/-- A packet that carries no data. -/
theorem send (env : SshEnv) (s : Ssh) (msg : UInt8) (payload : List UInt8)
    (hmsg : msg ≠ MSG_CHANNEL_DATA) (hhead : payload.headD 0 = msg) :
    s.Advances (s.sendPacket env payload) := by
  refine .of_flags (sendPacket_cout env s payload) ?_ ?_
  · rcases sendPacket_logs env s payload with htr | ⟨enc, seq, bytes, htr⟩
    · rw [htr]
    · rw [htr, dataOf, SshEvent.channelBytes, hhead, if_neg hmsg, List.append_nil]
  · rw [SshConn.flags, (Sends.sendPacket env s payload).conn]

theorem looks (h : s.Looks s') : s.Advances s' := by
  refine .of_flags (by rw [h.shared]) ?_ ?_
  · rw [h.conn]
  · rw [SshConn.flags, h.conn]

theorem winsize (s : Ssh) (cols rows : Nat) :
    s.Advances { s with c := { s.c with termCols := cols, termRows := rows } } :=
  .of_flags rfl rfl rfl

theorem peerWindow (s : Ssh) (window : Nat) :
    s.Advances { s with c := { s.c with peerWindow := window } } := .of_flags rfl rfl rfl

theorem localWindow (s : Ssh) (window : Nat) :
    s.Advances { s with c := { s.c with localWindow := window } } := .of_flags rfl rfl rfl

/-- An event that sends no data. -/
theorem note (s : Ssh) {e : SshEvent} (he : e.channelBytes = []) : s.Advances (s.note e) := by
  refine .of_flags rfl ?_ rfl
  show dataOf s.c.trace ++ e.channelBytes = dataOf s.c.trace
  rw [he, List.append_nil]

end Ssh.Advances

section

variable {env : SshEnv}

/-! ## Handlers -/

theorem negotiate_advances (env : SshEnv) (s : Ssh) (pl : Payload) :
    s.Advances (negotiate env s pl).2 := by
  have hcheck : ∀ (s : Ssh) first kex hk enc1 enc2,
      s.Advances (negCheck s first kex hk enc1 enc2).2 := by
    intro s first kex hk enc1 enc2
    unfold negCheck
    dsimp only
    repeat' split
    all_goals exact .of_flags rfl rfl rfl
  unfold negotiate
  dsimp only
  split
  · exact .of_conn rfl rfl
  · split
    · exact .of_conn rfl rfl
    · exact (hcheck _ _ _ _ _ _).before (.of_flags rfl rfl rfl)

theorem handleKexinit_advances (env : SshEnv) (s : Ssh) (pl : Payload) :
    s.Advances (handleKexinit env s pl) := by
  have hneg := negotiate_advances env s pl
  unfold handleKexinit
  split
  next s₁ heq =>
    rw [heq] at hneg
    exact hneg.trans (.fail s₁ _)
  next s₁ heq =>
    rw [heq] at hneg
    exact hneg.trans (.fail s₁ _)
  next s₁ heq =>
    rw [heq] at hneg
    exact hneg.trans (.of_flags rfl rfl rfl)

theorem ecdhReply_advances (env : SshEnv) (s : Ssh) (qC qS raw : List UInt8) :
    s.Advances (ecdhReply env s qC qS raw) := by
  unfold ecdhReply
  dsimp only
  generalize s.c.hctx ++ putStr (buildKsBlob env) ++ putStr qC ++ putStr qS ++ buildKmpint raw
    = hctx
  generalize env.crypto.sha256 hctx = h
  generalize buildKmpint raw = k
  generalize (if s.c.haveSessionId = true then s.c.sessionId else h) = sid
  generalize hreply : [MSG_KEX_ECDH_REPLY] ++ putStr (buildKsBlob env) ++ putStr qS ++
    putStr (putNl "ssh-ed25519" ++ putStr (env.crypto.ed25519Sign env.hostkeySk h)) = reply
  have hhead : reply.headD 0 = MSG_KEX_ECDH_REPLY := by
    rw [← hreply]
    rfl
  have h₁ : s.Advances { s with
      g := { s.g with kmpint := k, hash := h }
      c := { s.c with hctx := hctx, sessionId := sid, haveSessionId := true } } :=
    .of_flags rfl rfl rfl
  have h₂ := h₁.trans (.send env _ MSG_KEX_ECDH_REPLY _ (by decide) hhead)
  generalize Ssh.sendPacket env _ reply = s₂ at h₂ ⊢
  generalize deriveKey env.crypto k h s₂.c.sessionId 67 64 = ekC
  generalize deriveKey env.crypto k h s₂.c.sessionId 68 64 = ekS
  have h₃ : s₂.Advances { s₂ with
      c := { s₂.c with ekC2s := ekC, ekS2c := ekS, keysReady := true } } := .of_flags rfl rfl rfl
  have h₄ := (h₂.trans h₃).trans
    (.send env _ MSG_NEWKEYS [MSG_NEWKEYS] (by decide) rfl)
  generalize Ssh.sendPacket env _ [MSG_NEWKEYS] = s₄ at h₄ ⊢
  exact h₄.trans (.of_flags rfl rfl rfl)

theorem handleEcdhInit_advances (env : SshEnv) (s : Ssh) (pl : Payload) :
    s.Advances (handleEcdhInit env s pl) := by
  unfold handleEcdhInit
  dsimp only
  split
  · exact .of_flags rfl rfl rfl
  · split
    · exact .fail s _
    · split
      · exact (Advances.fail _ _).before (.of_conn rfl rfl)
      · split
        · exact (Advances.fail _ _).before (.of_conn rfl rfl)
        · exact (ecdhReply_advances env _ _ _ _).before (.of_conn rfl rfl)

theorem handleServiceRequest_advances (env : SshEnv) (s : Ssh) (pl : Payload) :
    s.Advances (handleServiceRequest env s pl) := by
  unfold handleServiceRequest
  dsimp only
  split
  · exact .fail s _
  · split
    · exact (Advances.fail _ _).before (.of_conn rfl rfl)
    · have hread : s.Advances { (s.read pl 1 4).read pl 5 (env.u (pl.u32 1)) with
          c := { s.c with svcName := (pl.sub 5 (env.u (pl.u32 1))).bytes, done := true } } :=
        .of_flags rfl rfl rfl
      have hsend := hread.trans (.send env _ MSG_SERVICE_ACCEPT
        ([MSG_SERVICE_ACCEPT] ++ putStr (pl.sub 5 (env.u (pl.u32 1))).bytes)
        (by decide) rfl)
      exact hsend.trans (.of_flags rfl rfl rfl)

theorem sendDisconnect_advances (env : SshEnv) (s : Ssh) (reason : Nat) (desc : String) :
    s.Advances (sendDisconnect env s reason desc) := by
  unfold sendDisconnect
  dsimp only
  generalize hp : [MSG_DISCONNECT] ++ be32 reason ++ putNl desc ++ putNl "" = payload
  have hhead : payload.headD 0 = MSG_DISCONNECT := by
    rw [← hp]
    rfl
  have hsend := Advances.send env s MSG_DISCONNECT _ (by decide) hhead
  generalize s.sendPacket env payload = s₁ at hsend ⊢
  exact hsend.trans (.of_flags rfl rfl rfl)

theorem authReject_advances (env : SshEnv) (s : Ssh) (countIt : Bool) :
    s.Advances (authReject env s countIt) := by
  unfold authReject
  generalize hs₁ : (if countIt then _ else s) = s₁
  have h₁ : s.Advances s₁ := by
    rw [← hs₁]
    split
    · exact .of_flags rfl rfl rfl
    · exact .refl s
  dsimp only
  split
  · exact (sendDisconnect_advances env s₁ _ _).before h₁
  · exact (Advances.send env s₁ MSG_USERAUTH_FAILURE _ (by decide) rfl).before h₁

theorem handleUserauthRequest_advances (env : SshEnv) (s : Ssh) (pl : Payload) :
    s.Advances (handleUserauthRequest env s pl) := by
  have hfollows := handleUserauthRequest_follows env s pl
  generalize userauthVerdict env s.c.sessionId pl = v at hfollows
  cases hfollows with
  | malformed s₁ h why hs' =>
      rw [hs']
      exact (Advances.fail s₁ why).before (.looks h)
  | probed s₁ h algo blob hs' =>
      rw [hs']
      exact (Advances.send env s₁ MSG_USERAUTH_PK_OK _ (by decide) rfl).before (.looks h)
  | refused s₁ h counted hs' =>
      rw [hs']
      exact (authReject_advances env s₁ counted).before (.looks h)
  | granted s₁ h hs' =>
      have hsend := (Advances.looks h).trans
        (.send env s₁ MSG_USERAUTH_SUCCESS [MSG_USERAUTH_SUCCESS] (by decide) rfl)
      rw [hs', sendUserauthSuccess]
      generalize s₁.sendPacket env [MSG_USERAUTH_SUCCESS] = s₂ at hsend ⊢
      exact hsend.trans (.of_flags rfl rfl rfl)

/-! ## The session -/

theorem handleChannelOpen_advances (env : SshEnv) (s : Ssh) (pl : Payload) :
    s.Advances (handleChannelOpen env s pl) := by
  unfold handleChannelOpen
  dsimp only
  split
  · exact .fail s _
  · split
    · exact (Advances.fail _ _).before (.of_conn rfl rfl)
    · generalize hs₁ : (ite (Bool.and _ _ = true) _ _ : Ssh) = s₁
      have h₁ : s.Advances s₁ := by
        rw [← hs₁]
        split <;> exact .of_conn rfl rfl
      refine h₁.trans ?_
      unfold channelOpenReply
      split
      · exact .send env s₁ MSG_CHANNEL_OPEN_FAILURE _ (by decide) rfl
      · generalize hs₂ : (Ssh.mk _ s₁.g s₁.reads : Ssh) = s₂
        have h₂ : s₁.Advances s₂ := by
          rw [← hs₂]
          exact fun hnil => ⟨hnil, rfl, fun _ => rfl, id, id, .inl⟩
        exact h₂.trans (.send env s₂ MSG_CHANNEL_OPEN_CONFIRMATION _ (by decide) rfl)

theorem readWinsize_advances (env : SshEnv) (s : Ssh) (pl : Payload) (o : Nat) :
    s.Advances (readWinsize env s pl o) := by
  unfold readWinsize
  dsimp only
  split
  · exact (Advances.winsize _ _ _).before (.of_conn rfl rfl)
  · exact .refl s

theorem channelRequest_advances (env : SshEnv) (s : Ssh) (pl rtype : Payload) (o : Nat) :
    s.Advances (channelRequest env s pl rtype o).2 := by
  generalize hr : channelRequest env s pl rtype o = r
  unfold channelRequest at hr
  dsimp only at hr
  generalize hs₁ : (if rtype.len = 7 ∨ rtype.len = 5 ∨ rtype.len = 4 ∨ rtype.len = 13 then
    s.readAll rtype else s) = s₁ at hr
  have h₁ : s.Advances s₁ := by
    rw [← hs₁]
    split <;> exact .of_conn rfl rfl
  refine h₁.trans ?_
  split at hr
  · subst hr
    generalize hs₂ : (if env.u (o + 4) ≤ pl.len then _ else s₁) = s₂
    have h₂ : s₁.Advances s₂ := by
      rw [← hs₂]
      split
      · exact (readWinsize_advances env _ pl _).before (.of_conn rfl rfl)
      · exact .refl s₁
    exact h₂.trans (.of_flags rfl rfl rfl)
  · split at hr
    · subst hr
      exact fun hnil => ⟨hnil, rfl, id, fun _ => rfl, id, .inl⟩
    · split at hr
      · subst hr
        exact readWinsize_advances env s₁ pl o
      · subst hr
        exact .refl s₁

theorem chanReply_advances (env : SshEnv) (s : Ssh) (granted : Bool) :
    s.Advances (chanReply env s (if granted then MSG_CHANNEL_SUCCESS else MSG_CHANNEL_FAILURE)) := by
  unfold chanReply
  cases granted with
  | true => exact .send env s MSG_CHANNEL_SUCCESS _ (by decide) rfl
  | false => exact .send env s MSG_CHANNEL_FAILURE _ (by decide) rfl

theorem handleChannelRequest_advances (env : SshEnv) (s : Ssh) (pl : Payload) :
    s.Advances (handleChannelRequest env s pl) := by
  unfold handleChannelRequest
  dsimp only
  split
  · exact .refl s
  · split
    · exact .refl s
    · split
      · exact .of_conn rfl rfl
      · generalize hs₁ : ((s.read pl 5 4).read pl (env.u (9 + env.u (pl.u32 5))) 1) = s₁
        have h₁ : s.Advances s₁ := by
          rw [← hs₁]
          exact .of_conn rfl rfl
        have hreq := h₁.trans (channelRequest_advances env s₁ pl (pl.sub 9 (env.u (pl.u32 5)))
          (env.u (env.u (9 + env.u (pl.u32 5)) + 1)))
        split
        · exact (chanReply_advances env _ _).before hreq
        · exact hreq

theorem cinLoop_advances (pl : Payload) : ∀ (k o : Nat) (s : Ssh), s.Advances (cinLoop pl k o s)
  | 0, _, s => .refl s
  | k + 1, o, s => by
      rw [cinLoop]
      split
      · exact .refl s
      · refine (cinLoop_advances pl k (o + 1) _).before ?_
        exact (Advances.note _ rfl).before (.of_conn rfl rfl)

theorem adjustLocalWindow_advances (env : SshEnv) (s : Ssh) (consumed : Nat) :
    s.Advances (adjustLocalWindow env s consumed) := by
  have hused := Advances.localWindow s (s.c.localWindow - consumed)
  unfold adjustLocalWindow
  dsimp only
  split
  · exact hused
  · generalize s.c.localWindow - consumed = window at hused ⊢
    generalize hp : [MSG_CHANNEL_WINDOW_ADJUST] ++ be32 s.c.peerChan ++
      be32 (SSH_LOCAL_WINDOW - window) = payload
    have hhead : payload.headD 0 = MSG_CHANNEL_WINDOW_ADJUST := by
      rw [← hp]
      rfl
    have hsend := hused.trans (.send env _ MSG_CHANNEL_WINDOW_ADJUST _ (by decide) hhead)
    generalize Ssh.sendPacket env _ payload = s₁ at hsend ⊢
    exact hsend.trans (.localWindow s₁ _)

theorem handleChannelData_advances (env : SshEnv) (s : Ssh) (pl : Payload) :
    s.Advances (handleChannelData env s pl) := by
  unfold handleChannelData
  dsimp only
  split
  · exact .refl s
  · generalize (if env.u (9 + env.u (pl.u32 5)) > pl.len then _ else _) = dlen
    have hloop := (cinLoop_advances pl dlen 9 (s.read pl 5 4)).before
      (Advances.of_conn (s := s) rfl rfl)
    generalize cinLoop pl dlen 9 (s.read pl 5 4) = s₁ at hloop ⊢
    exact hloop.trans (adjustLocalWindow_advances env s₁ dlen)

theorem handleChannelWindowAdjust_advances (s : Ssh) (pl : Payload) :
    s.Advances (handleChannelWindowAdjust s pl) := by
  unfold handleChannelWindowAdjust
  dsimp only
  split
  · exact .refl s
  · exact (Advances.peerWindow _ _).before (.of_conn rfl rfl)

/-- A flush of nothing. -/
theorem sshChannelFlush_advances (env : SshEnv) (s : Ssh) : s.Advances (sshChannelFlush env s) := by
  intro hnil
  have hsame : (sshChannelFlush env s).c = s.c ∧ (sshChannelFlush env s).g.cout = [] := by
    unfold sshChannelFlush
    rw [hnil]
    split
    · exact ⟨rfl, rfl⟩
    · refine ⟨rfl, ?_⟩
      show s.g.cout.drop 0 = []
      rw [hnil, List.drop_nil]
  exact Advances.of_conn hsame.1 (hsame.2.trans hnil.symm) hnil

theorem sshChannelClose_advances (env : SshEnv) (s : Ssh) :
    s.Advances (sshChannelClose env s) := by
  unfold sshChannelClose
  split
  · exact .refl s
  · refine (sshChannelFlush_advances env s).trans ?_
    generalize sshChannelFlush env s = s₁
    dsimp only
    generalize hs₂ : (if s₁.c.shellReady then _ else s₁) = s₂
    have h₂ : s₁.Advances s₂ := by
      rw [← hs₂]
      split
      · exact .send env s₁ MSG_CHANNEL_REQUEST _ (by decide) rfl
      · exact .refl s₁
    generalize hs₃ : (if !s₂.c.chanSentEof then _ else s₂) = s₃
    have h₃ : s₂.Advances s₃ := by
      rw [← hs₃]
      split
      · have hsend := Advances.send env s₂ MSG_CHANNEL_EOF
          ([MSG_CHANNEL_EOF] ++ be32 s₂.c.peerChan) (by decide) rfl
        generalize s₂.sendPacket env _ = s₄ at hsend ⊢
        exact hsend.trans (.of_flags rfl rfl rfl)
      · exact .refl s₂
    have h₄ := (h₂.trans h₃).trans (.send env s₃ MSG_CHANNEL_CLOSE
      ([MSG_CHANNEL_CLOSE] ++ be32 s₃.c.peerChan) (by decide) rfl)
    generalize s₃.sendPacket env _ = s₄ at h₄ ⊢
    exact h₄.trans fun hnil => ⟨hnil, rfl, id, id, fun _ => rfl, fun _ => .inr rfl⟩

theorem handleSession_advances (env : SshEnv) (s : Ssh) (pl : Payload) (msg : UInt8) :
    s.Advances (handleSession env s pl msg) := by
  unfold handleSession
  split
  · exact handleChannelOpen_advances env s pl
  · split
    · exact handleChannelRequest_advances env s pl
    · split
      · exact handleChannelData_advances env s pl
      · split
        · exact handleChannelWindowAdjust_advances s pl
        · split
          · exact .of_flags rfl rfl rfl
          · split
            · have hclose : s.Advances (if !s.c.chanSentClose then sshChannelClose env s else s) := by
                split
                · exact sshChannelClose_advances env s
                · exact .refl s
              exact hclose.trans fun hnil =>
                ⟨hnil, rfl, id, id, fun _ => rfl, fun _ => .inr rfl⟩
            · exact .refl s

/-! ## Turns and calls -/

theorem handlePacket_advances (env : SshEnv) (s : Ssh) (pl : Payload) :
    s.Advances (handlePacket env s pl) := by
  unfold handlePacket
  dsimp only
  generalize hs₁ : (if pl.len ≠ 0 then s.read pl 0 1 else s) = s₁
  have h₁ : s.Advances s₁ := by
    rw [← hs₁]
    split <;> exact .of_conn rfl rfl
  refine h₁.trans ?_
  split
  · exact .of_flags rfl rfl rfl
  · split
    · exact .refl s₁
    · split
      · unfold handleGlobalRequest
        dsimp only
        repeat' split
        · exact .refl s₁
        · exact (Advances.send env _ MSG_REQUEST_FAILURE _ (by decide) rfl).before (.of_conn rfl rfl)
        · exact .of_conn rfl rfl
        · exact .of_conn rfl rfl
      · unfold handleByState
        split
        all_goals first | split | skip
        · exact .fail s₁ _
        · exact handleKexinit_advances env s₁ pl
        · exact .fail s₁ _
        · exact handleEcdhInit_advances env s₁ pl
        · exact .fail s₁ _
        · exact .of_flags rfl rfl rfl
        · exact .fail s₁ _
        · exact handleServiceRequest_advances env s₁ pl
        · exact handleUserauthRequest_advances env s₁ pl
        · exact .refl s₁
        · exact handleSession_advances env s₁ pl _
        all_goals exact .fail s₁ _

theorem dispatch_advances (env : SshEnv) (s : Ssh) (wire : List UInt8) (mem : Nat → UInt8)
    (k need : Nat) : s.Advances ((s.dispatch env wire mem k).finish need) := by
  have hnote : s.Advances (s.note (s.packetEvent wire (slice mem 0 k))) := .note s rfl
  have hpacket : s.Advances (s.dispatch env wire mem k) :=
    hnote.trans ((handlePacket_advances env _ _).before (.of_conn rfl rfl))
  exact hpacket.trans (.of_flags rfl rfl rfl)

theorem Turn.advances {s s' : Ssh} {r : TryRes} (ht : Turn env s r s') : s.Advances s' := by
  have hopened : s.Advances { s with c := s.c.opened env } := .of_flags rfl rfl rfl
  cases ht with
  | waits => exact .refl s
  | wild => exact .refl s
  | fails s₁ hs₁ why =>
      rcases hs₁ with rfl | rfl
      · exact .fail _ why
      · exact hopened.trans (.fail _ why)
  | banner hst k hk => exact .of_flags rfl rfl rfl
  | version hst k hk line => exact .of_flags rfl rfl rfl
  | plain hst henc mem beyond n hib hlen hneed => exact dispatch_advances env s _ _ _ _
  | opened hst henc hv beyond padlen hpad hle =>
      exact hopened.trans (dispatch_advances env _ _ _ _ _)

theorem sshInput_advances {s s' : Ssh} {beyond : Nat → Nat → UInt8} {fuel : Nat}
    {data : List UInt8} (h : (sshInput env beyond fuel s data).state? = some s') :
    s.Advances s' :=
  sshInput_lift .refl (fun _ _ _ => .trans) (fun _ _ _ => Turn.advances) .fail
    (fun _ _ => .of_flags rfl rfl rfl) h

/-- A fresh connection has no channel. -/
theorem sshReset_shell (env : SshEnv) (g : SshShared) :
    (sshReset env g).g.cout = [] ∧ dataOf (sshReset env g).c.trace = [] ∧
      (sshReset env g).c.flags = (false, false, false, false) := by
  unfold sshReset
  dsimp only
  have hob : ∀ s : Ssh, s.g.ob = [] → (s.obAppend env (ascii SERVER_ID_CRLF)).c = s.c := by
    intro s hs
    have hlen : env.u (s.g.ob.length + (ascii SERVER_ID_CRLF).length) = 19 := by
      rw [hs]
      exact env.u_small (by decide)
    rw [Ssh.obAppend, hlen, if_neg (by decide)]
  generalize hs₀ : Ssh.note ⟨SshConn.zero, { g with ob := [], cin := [], cout := [] }, []⟩ _ = s₀
  have h₀ : s₀.c = SshConn.fresh ∧ s₀.g.ob = [] ∧ s₀.g.cout = [] := by
    rw [← hs₀]
    exact ⟨rfl, rfl, rfl⟩
  have hc := hob s₀ h₀.2.1
  have hcout := Advances.obAppend_cout env s₀ (ascii SERVER_ID_CRLF)
  generalize s₀.obAppend env (ascii SERVER_ID_CRLF) = s₁ at hc hcout ⊢
  generalize hiS : ourKexinit (env.rngBytes s₁.g.rngPos 16) = iS
  have hhead : iS.headD 0 = MSG_KEXINIT := by
    rw [← hiS]
    rfl
  generalize hs₂ : (Ssh.mk _ _ _ : Ssh) = s₂
  have h₂ : s₂.c = { SshConn.fresh with iS := iS } ∧ s₂.g.cout = [] := by
    rw [← hs₂]
    refine ⟨?_, hcout.trans h₀.2.2⟩
    show { s₁.c with iS := iS } = _
    rw [hc, h₀.1]
  have hsend := Advances.send env s₂ MSG_KEXINIT _ (by decide) hhead
  have hflags := (Sends.sendPacket env s₂ iS).conn
  have hplain : s₂.c.sendEncrypted = false := by
    rw [h₂.1]
    rfl
  rw [Ssh.sendPacket, hplain, if_neg (by decide)] at hsend hflags
  obtain ⟨hcout', hdata, -⟩ := hsend h₂.2
  refine ⟨hcout', ?_, ?_⟩
  · rw [hdata, h₂.1]
    rfl
  · rw [SshConn.flags, hflags, h₂.1]
    rfl

end

end Dossh
