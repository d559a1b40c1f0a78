import Dossh.Ssh.Channels

/-!
# The order of messages on the channel

RFC 4254 wants the confirmation first, at most one end of file and one close, no data behind
the end of file and nothing behind the close.  The calls that send keep to it, since they look
at the flags.  `chan_reply` and `adjust_local_window` do not, so a request or data that comes
before the channel is open, or after the server has closed it, is answered all the same.
-/

namespace Dossh

open Ssh

/-- What the protocol asks of the messages sent on a channel. -/
structure Disciplined (msgs : List UInt8) : Prop where
  confirmed : ∀ m ∈ msgs.head?, m = MSG_CHANNEL_OPEN_CONFIRMATION
  eofOnce : msgs.count MSG_CHANNEL_EOF ≤ 1
  closeOnce : msgs.count MSG_CHANNEL_CLOSE ≤ 1
  noData : ∀ before after, msgs = before ++ MSG_CHANNEL_EOF :: after → MSG_CHANNEL_DATA ∉ after
  last : ∀ before after, msgs = before ++ MSG_CHANNEL_CLOSE :: after → after = []

/-- A packet is answered on the channel only while it is open. -/
def AnsweredOpen (env : SshEnv) (c : SshConn) (pl : Payload) : Prop :=
  Answered env c pl → c.chanOpen = true ∧ c.chanSentClose = false

instance (env : SshEnv) (c : SshConn) (pl : Payload) : Decidable (AnsweredOpen env c pl) :=
  inferInstanceAs (Decidable (_ → _))

/-! ## Phases -/

/-- The messages between the confirmation and the end of file. -/
def bodyTypes : List UInt8 :=
  [MSG_CHANNEL_WINDOW_ADJUST, MSG_CHANNEL_DATA, MSG_CHANNEL_REQUEST, MSG_CHANNEL_SUCCESS,
    MSG_CHANNEL_FAILURE]

/-- The flags of the channel tell what was sent on it. -/
inductive ChannelPhase (c : SshConn) : Prop where
  | unopened (hopen : c.chanOpen = false) (heof : c.chanSentEof = false)
      (hclose : c.chanSentClose = false) (hmsgs : channelMsgs c.trace = [])
  | opened (hopen : c.chanOpen = true) (heof : c.chanSentEof = false)
      (hclose : c.chanSentClose = false) (body : List UInt8) (hbody : ∀ m ∈ body, m ∈ bodyTypes)
      (hmsgs : channelMsgs c.trace = MSG_CHANNEL_OPEN_CONFIRMATION :: body)
  | ended (hopen : c.chanOpen = true) (hclose : c.chanSentClose = true)
      (hclosed : c.chanClosed = true) (body : List UInt8) (hbody : ∀ m ∈ body, m ∈ bodyTypes)
      (hmsgs : channelMsgs c.trace =
        MSG_CHANNEL_OPEN_CONFIRMATION :: (body ++ [MSG_CHANNEL_EOF, MSG_CHANNEL_CLOSE]))

/-- The channel is open and the server has not begun to close it. -/
def ChannelOpen (c : SshConn) : Prop :=
  c.chanOpen = true ∧ c.chanSentEof = false ∧ c.chanSentClose = false ∧
    ∃ body, (∀ m ∈ body, m ∈ bodyTypes) ∧
      channelMsgs c.trace = MSG_CHANNEL_OPEN_CONFIRMATION :: body

section

variable {env : SshEnv} {c : SshConn} {s s' : Ssh} {g : SshShared}

theorem ChannelOpen.phase (h : ChannelOpen c) : ChannelPhase c := by
  obtain ⟨hopen, heof, hclose, body, hbody, hmsgs⟩ := h
  exact .opened hopen heof hclose body hbody hmsgs

theorem ChannelPhase.isOpen (h : ChannelPhase c) (hopen : c.chanOpen = true)
    (hclose : c.chanSentClose = false) : ChannelOpen c := by
  cases h with
  | unopened hno => exact absurd (hopen.symm.trans hno) nofun
  | opened _ heof _ body hbody hmsgs => exact ⟨hopen, heof, hclose, body, hbody, hmsgs⟩
  | ended _ hyes => exact absurd (hclose.symm.trans hyes) nofun

/-- On a channel that is not closed, the server has not sent a close. -/
theorem ChannelPhase.isOpen_of_not_closed (h : ChannelPhase c) (hopen : c.chanOpen = true)
    (hclosed : c.chanClosed = false) : ChannelOpen c := by
  cases h with
  | unopened hno => exact absurd (hopen.symm.trans hno) nofun
  | opened _ heof hclose body hbody hmsgs => exact ⟨hopen, heof, hclose, body, hbody, hmsgs⟩
  | ended _ _ hyes => exact absurd (hclosed.symm.trans hyes) nofun

/-- The phase depends on the flags and the messages. -/
theorem ChannelPhase.congr {c' : SshConn} (h : ChannelPhase c) (hopen : c'.chanOpen = c.chanOpen)
    (heof : c'.chanSentEof = c.chanSentEof) (hclose : c'.chanSentClose = c.chanSentClose)
    (hclosed : c.chanClosed = true → c'.chanClosed = true)
    (hmsgs : channelMsgs c'.trace = channelMsgs c.trace) : ChannelPhase c' := by
  cases h with
  | unopened h₁ h₂ h₃ h₄ =>
      exact .unopened (hopen.trans h₁) (heof.trans h₂) (hclose.trans h₃) (hmsgs.trans h₄)
  | opened h₁ h₂ h₃ body hbody h₄ =>
      exact .opened (hopen.trans h₁) (heof.trans h₂) (hclose.trans h₃) body hbody (hmsgs.trans h₄)
  | ended h₁ h₂ h₃ body hbody h₄ =>
      exact .ended (hopen.trans h₁) (hclose.trans h₂) (hclosed h₃) body hbody (hmsgs.trans h₄)

theorem ChannelPhase.off (h : ChannelPhase s.c) (hoff : s.OffChannel s') : ChannelPhase s'.c := by
  have hf := hoff.fields
  simp only [SshConn.channel, Prod.mk.injEq] at hf
  obtain ⟨-, -, hopen, heof, hclose, hclosed⟩ := hf
  exact h.congr hopen heof hclose (fun hc => hclosed.trans hc) hoff.msgs

/-- A message of the body keeps the channel open. -/
theorem ChannelOpen.emits (h : ChannelOpen s.c) {type : UInt8} {rest : List UInt8}
    (htype : type ∈ bodyTypes) (hlen : rest.length < SSH_ENC_MAX_PLEN) :
    ChannelOpen (s.sendPacket env (type :: rest)).c := by
  obtain ⟨hopen, heof, hclose, body, hbody, hmsgs⟩ := h
  have hf := sendPacket_channel env s (type :: rest)
  simp only [SshConn.channel, Prod.mk.injEq] at hf
  have hsub : bodyTypes ⊆ channelTypes := by decide
  refine ⟨hf.2.2.1.trans hopen, hf.2.2.2.1.trans heof, hf.2.2.2.2.1.trans hclose, body ++ [type],
    ?_, ?_⟩
  · intro m hm
    rcases List.mem_append.mp hm with hm | hm
    · exact hbody m hm
    · rw [List.mem_singleton.mp hm]
      exact htype
  · rw [channelMsgs_send env s (hsub htype) hlen, hmsgs, List.cons_append]

theorem ChannelOpen.window (h : ChannelOpen c) (window : Nat) :
    ChannelOpen { c with peerWindow := window } := h

/-! ## Calls -/

theorem ChannelOpen.flush (h : ChannelOpen s.c) : ChannelOpen (sshChannelFlush env s).c := by
  have hdata : MSG_CHANNEL_DATA ∈ bodyTypes := by decide
  rcases sshChannelFlush_cases env s with heq | ⟨-, -, heq⟩
  · rw [heq]
    exact h
  · rw [heq]
    refine flushLoop_keeps (P := fun s => ChannelOpen s.c) ?_ ?_ _ _ h
    · intro s data h hchunk _
      exact h.emits hdata (dataRest_lt s.c hchunk.chunk)
    · intro s s₁ data h hchunk hs₁ _
      have hsaid : ChannelOpen s₁.c := by
        rw [hs₁]
        exact h.emits hdata (dataRest_lt s.c hchunk.chunk)
      exact hsaid.window _

/-- A close ends the messages. -/
theorem ChannelOpen.close (h : ChannelOpen s.c) :
    ChannelPhase (sshChannelClose env s).c ∧ (sshChannelClose env s).c.chanSentClose = true := by
  generalize hr : sshChannelClose env s = r
  unfold sshChannelClose at hr
  rw [h.1, h.2.2.1] at hr
  dsimp only at hr
  rw [if_neg (by decide)] at hr
  have hflushed := @ChannelOpen.flush env s h
  generalize sshChannelFlush env s = s₁ at hr hflushed
  generalize hs₂ : (if s₁.c.shellReady = true then _ else s₁ : Ssh) = s₂ at hr
  have hstatus : ChannelOpen s₂.c := by
    rw [← hs₂]
    split
    · exact hflushed.emits (by decide) (by exact (by decide : 24 < SSH_ENC_MAX_PLEN))
    · exact hflushed
  obtain ⟨hopen, heof, hclose, body, hbody, hmsgs⟩ := hstatus
  rw [heof, if_pos (by decide)] at hr
  have hlen : ∀ s : Ssh, (be32 s.c.peerChan).length < SSH_ENC_MAX_PLEN :=
    fun _ => (by decide : 4 < SSH_ENC_MAX_PLEN)
  have heofMsgs : channelMsgs (s₂.sendPacket env (MSG_CHANNEL_EOF :: be32 s₂.c.peerChan)).c.trace =
      channelMsgs s₂.c.trace ++ [MSG_CHANNEL_EOF] := channelMsgs_send env s₂ (by decide) (hlen s₂)
  have hf := sendPacket_channel env s₂ (MSG_CHANNEL_EOF :: be32 s₂.c.peerChan)
  simp only [SshConn.channel, Prod.mk.injEq] at hf
  change _ = r at hr
  generalize hs₃ : ({ s₂.sendPacket env ([MSG_CHANNEL_EOF] ++ be32 s₂.c.peerChan) with
    c := { (s₂.sendPacket env ([MSG_CHANNEL_EOF] ++ be32 s₂.c.peerChan)).c with
      chanSentEof := true } } : Ssh) = s₃ at hr
  have hopen₃ : s₃.c.chanOpen = true := by
    rw [← hs₃]
    exact hf.2.2.1.trans hopen
  have hmsgs₃ : channelMsgs s₃.c.trace = channelMsgs s₂.c.trace ++ [MSG_CHANNEL_EOF] := by
    rw [← hs₃]
    exact heofMsgs
  have hcloseMsgs : channelMsgs
      (s₃.sendPacket env (MSG_CHANNEL_CLOSE :: be32 s₃.c.peerChan)).c.trace =
      channelMsgs s₃.c.trace ++ [MSG_CHANNEL_CLOSE] := channelMsgs_send env s₃ (by decide) (hlen s₃)
  have hf' := sendPacket_channel env s₃ (MSG_CHANNEL_CLOSE :: be32 s₃.c.peerChan)
  simp only [SshConn.channel, Prod.mk.injEq] at hf'
  subst hr
  refine ⟨.ended (hf'.2.2.1.trans hopen₃) rfl rfl body hbody ?_, rfl⟩
  refine hcloseMsgs.trans ?_
  rw [hmsgs₃, hmsgs]
  simp

theorem ChannelPhase.close (h : ChannelPhase s.c) : ChannelPhase (sshChannelClose env s).c := by
  by_cases hskip : (!s.c.chanOpen || s.c.chanSentClose) = true
  · rw [sshChannelClose, if_pos hskip]
    exact h
  · rw [Bool.or_eq_true, not_or, Bool.not_eq_true, Bool.not_eq_true, Bool.not_eq_false'] at hskip
    exact (h.isOpen hskip.1 hskip.2).close.1

theorem ChannelPhase.flush (h : ChannelPhase s.c) : ChannelPhase (sshChannelFlush env s).c := by
  rcases sshChannelFlush_cases env s with heq | ⟨hopen, hclosed, -⟩
  · rw [heq]
    exact h
  · exact (h.isOpen_of_not_closed hopen hclosed).flush.phase

theorem ChannelPhase.emit (h : ChannelPhase s.c) (plain : List UInt8) (outmax : Nat) :
    ChannelPhase (sshChannelEmit env s plain outmax).2.c := by
  rcases sshChannelEmit_cases env s plain outmax with
    heq | ⟨hopen, hclosed, -, -, -, -, bytes, hc⟩
  · rw [heq]
    exact h
  · obtain ⟨-, heof, hclose, body, hbody, hmsgs⟩ := h.isOpen_of_not_closed hopen hclosed
    rw [hc]
    refine .opened hopen heof hclose (body ++ [MSG_CHANNEL_DATA]) ?_ ?_
    · intro m hm
      rcases List.mem_append.mp hm with hm | hm
      · exact hbody m hm
      · rw [List.mem_singleton.mp hm]
        decide
    · dsimp only
      rw [channelMsgs_cons, hmsgs]
      rfl

/-- Every call keeps the phase. -/
theorem ChannelPhase.call (h : ChannelPhase s.c) {op : SshOp} (hop : op.isInput = false)
    (hrun : op.run env s = some s') : ChannelPhase s'.c := by
  cases op with
  | input => cases hop
  | putc b =>
      cases hrun
      unfold sshChannelPutc
      repeat' split
      all_goals exact h
  | flush =>
      cases hrun
      exact h.flush
  | emit plain outmax =>
      cases hrun
      exact h.emit plain outmax
  | close =>
      cases hrun
      exact h.close
  | _ =>
      cases hrun
      exact h

/-! ## Packets -/

theorem ChannelPhase.handing (h : ChannelPhase s.c) (ib wire : List UInt8) (pl : Payload) :
    ChannelPhase (s.handing ib wire pl).c := by
  refine h.congr rfl rfl rfl id ?_
  exact (channelMsgs_cons _ _).trans (List.append_nil _)

/-- A packet keeps the phase, unless it is answered on a channel that is not open. -/
theorem ChannelPhase.packet {pl : Payload} (h : ChannelPhase s.c)
    (hanswer : AnsweredOpen env s.c pl) : ChannelPhase (handlePacket env s pl).c := by
  cases handlePacket_channel env s pl with
  | off hoff => exact h.off hoff
  | opened _ _ hopen iwin maxp _ s₁ htr hfields rest hlen hs' =>
      cases h with
      | opened hyes => exact absurd (hopen.symm.trans hyes) nofun
      | ended hyes => exact absurd (hopen.symm.trans hyes) nofun
      | unopened _ heof hclose hmsgs =>
          have hf := sendPacket_channel env s₁ (MSG_CHANNEL_OPEN_CONFIRMATION :: rest)
          rw [hfields, heof, hclose, ← hs'] at hf
          simp only [SshConn.channel, Prod.mk.injEq] at hf
          obtain ⟨-, -, hopen', heof', hclose', -⟩ := hf
          refine .opened hopen' heof' hclose' [] (by simp) ?_
          rw [hs', channelMsgs_send env s₁ (by decide) hlen, htr, hmsgs]
          rfl
  | replied hask s₁ hoff type htype rest hlen hs' =>
      obtain ⟨hopen, hclose⟩ := hanswer hask
      have hf := hoff.fields
      simp only [SshConn.channel, Prod.mk.injEq] at hf
      have hsub : [MSG_CHANNEL_WINDOW_ADJUST, MSG_CHANNEL_SUCCESS, MSG_CHANNEL_FAILURE] ⊆
        bodyTypes := by decide
      have hbefore : ChannelOpen s₁.c :=
        (h.off hoff).isOpen (hf.2.2.1.trans hopen) (hf.2.2.2.2.1.trans hclose)
      exact (hbefore.emits (hsub htype) hlen).phase.off hs'
  | credited _ _ htr hfields =>
      simp only [SshConn.channel, Prod.mk.injEq] at hfields
      obtain ⟨-, -, hopen, heof, hclose, hclosed⟩ := hfields
      exact h.congr hopen heof hclose (fun hc => hclosed.trans hc) (by rw [htr])
  | closed _ _ s₁ s₂ hc _ hs₂ hs' =>
      rw [← hc] at h
      have hbefore : ChannelPhase s₂.c := by
        rw [hs₂]
        split
        · exact h.close
        · exact h
      rw [hs']
      exact hbefore.congr rfl rfl rfl (fun _ => rfl) rfl

/-! ## Runs -/

theorem ChannelPhase.decodes (h : ChannelPhase s.c) (hd : s.Decodes s') : ChannelPhase s'.c := by
  rw [hd.conn]
  exact h.congr rfl rfl rfl id rfl

theorem sshReset_phase (env : SshEnv) (g : SshShared) : ChannelPhase (sshReset env g).c := by
  obtain ⟨s₀, hc, hoff⟩ := sshReset_off env g
  refine ChannelPhase.off (.unopened ?_ ?_ ?_ ?_) hoff
  all_goals
    rw [hc]
    rfl

/-- The messages of a phase are in order. -/
theorem ChannelPhase.disciplined (h : ChannelPhase c) : Disciplined (channelMsgs c.trace) := by
  have hfront : ∀ {body : List UInt8} {m : UInt8}, (∀ m ∈ body, m ∈ bodyTypes) →
      m ∈ [MSG_CHANNEL_EOF, MSG_CHANNEL_CLOSE] → m ∉ MSG_CHANNEL_OPEN_CONFIRMATION :: body := by
    intro body m hbody hm hmem
    have hoff : ∀ m ∈ [MSG_CHANNEL_EOF, MSG_CHANNEL_CLOSE],
        m ∉ MSG_CHANNEL_OPEN_CONFIRMATION :: bodyTypes := forall_mem_of_all (by decide)
    rcases List.mem_cons.mp hmem with heq | hmem
    · exact hoff m hm (heq ▸ List.mem_cons_self)
    · exact hoff m hm (List.mem_cons_of_mem _ (hbody m hmem))
  cases h with
  | unopened _ _ _ hmsgs =>
      rw [hmsgs]
      constructor <;> simp
  | opened _ _ _ body hbody hmsgs =>
      rw [hmsgs]
      have heof := hfront hbody (m := MSG_CHANNEL_EOF) (by decide)
      have hclose := hfront hbody (m := MSG_CHANNEL_CLOSE) (by decide)
      refine ⟨by simp, ?_, ?_, ?_, ?_⟩
      · rw [List.count_eq_zero_of_not_mem heof]
        decide
      · rw [List.count_eq_zero_of_not_mem hclose]
        decide
      · intro before after heq
        exact absurd (heq ▸ by simp) heof
      · intro before after heq
        exact absurd (heq ▸ by simp) hclose
  | ended _ _ _ body hbody hmsgs =>
      rw [hmsgs, ← List.cons_append]
      have heof := hfront hbody (m := MSG_CHANNEL_EOF) (by decide)
      have hclose := hfront hbody (m := MSG_CHANNEL_CLOSE) (by decide)
      refine ⟨by simp, ?_, ?_, ?_, ?_⟩
      · rw [List.count_append, List.count_eq_zero_of_not_mem heof]
        decide
      · rw [List.count_append, List.count_eq_zero_of_not_mem hclose]
        decide
      · intro before after heq
        obtain ⟨-, -, hafter⟩ := (List.append_cons_inj_of_notMem heof (by decide)).mp heq
        rw [← hafter]
        decide
      · intro before after heq
        rw [List.append_cons] at heq
        have hfront' : MSG_CHANNEL_CLOSE ∉
            MSG_CHANNEL_OPEN_CONFIRMATION :: body ++ [MSG_CHANNEL_EOF] := by
          rw [List.mem_append, not_or]
          exact ⟨hclose, by decide⟩
        exact ((List.append_cons_inj_of_notMem hfront' (by simp)).mp heq).2.2.symm

/-- In every run in which requests and data are answered only on an open channel, the messages
of the channel are in order. -/
theorem channel_messages_disciplined {ops : List SshOp}
    (hmeets : RunMeets env (AnsweredOpen env) (fun _ _ => True) ops (sshReset env g))
    (hrun : sshRun env ops (sshReset env g) = some s) : Disciplined (channelMsgs s.c.trace) := by
  refine ChannelPhase.disciplined ?_
  refine RunMeets.keeps (P := fun s => ChannelPhase s.c) ?_ ?_ ?_ ops (sshReset_phase env g) hmeets
    hrun
  · intro s s' h hd
    exact h.decodes hd
  · intro s ib wire pl h hQ
    exact (h.handing ib wire pl).packet hQ
  · intro op s s' h hop _ hrun
    exact h.call hop hrun

end

/-! ## Two clients -/

/-- A client opens the channel and asks for a shell, and the server sends a byte and closes. -/
def shellOps : List SshOp :=
  feed (loginChunks ++ [sealedFrame 5 (sessionOpen 100), sealedFrame 6 shellRequest]) ++
    [.putc 65, .flush, .close]

theorem channel_messages_disciplined_shell : ∃ s,
    sshRun sampleEnv shellOps (sshReset sampleEnv SshShared.zero) = some s ∧
    channelMsgs s.c.trace = [MSG_CHANNEL_OPEN_CONFIRMATION, MSG_CHANNEL_SUCCESS, MSG_CHANNEL_DATA,
      MSG_CHANNEL_REQUEST, MSG_CHANNEL_EOF, MSG_CHANNEL_CLOSE] ∧
    Disciplined (channelMsgs s.c.trace) := by
  -- in one evaluation, since the run is the same
  obtain ⟨hmeets, hrun⟩ : RunMeets sampleEnv (AnsweredOpen sampleEnv) (fun _ _ => True) shellOps
        (sshReset sampleEnv SshShared.zero) ∧
      (sshRun sampleEnv shellOps (sshReset sampleEnv SshShared.zero)).map
        (fun s => channelMsgs s.c.trace) = some [MSG_CHANNEL_OPEN_CONFIRMATION, MSG_CHANNEL_SUCCESS,
          MSG_CHANNEL_DATA, MSG_CHANNEL_REQUEST, MSG_CHANNEL_EOF, MSG_CHANNEL_CLOSE] := by
    decide +kernel
  obtain ⟨s, hs, hmsgs⟩ := Option.map_eq_some_iff.mp hrun
  exact ⟨s, hs, hmsgs, channel_messages_disciplined hmeets hs⟩

/-- A request in front of the opening is answered, and so is one behind the close of the
server. -/
theorem request_answered_off_channel :
    (∃ s, SshReach sampleEnv s ∧ channelMsgs s.c.trace = [MSG_CHANNEL_SUCCESS] ∧
      ¬ Disciplined (channelMsgs s.c.trace)) ∧
    ∃ s, SshReach sampleEnv s ∧ channelMsgs s.c.trace = [MSG_CHANNEL_OPEN_CONFIRMATION,
      MSG_CHANNEL_EOF, MSG_CHANNEL_CLOSE, MSG_CHANNEL_SUCCESS] ∧
      ¬ Disciplined (channelMsgs s.c.trace) := by
  constructor
  · have hrun : (sampleRun (loginChunks ++ [sealedFrame 5 shellRequest])).map
        (fun s => channelMsgs s.c.trace) = some [MSG_CHANNEL_SUCCESS] := by decide +kernel
    obtain ⟨s, hs, hmsgs⟩ := Option.map_eq_some_iff.mp hrun
    refine ⟨s, ⟨_, _, hs⟩, hmsgs, fun h => ?_⟩
    rw [hmsgs] at h
    exact absurd (h.confirmed _ rfl) (by decide)
  · have hrun : (sshRun sampleEnv (feed (loginChunks ++ [sealedFrame 5 (sessionOpen 100)]) ++
        [.close] ++ feed [sealedFrame 6 shellRequest]) (sshReset sampleEnv SshShared.zero)).map
        (fun s => channelMsgs s.c.trace) = some [MSG_CHANNEL_OPEN_CONFIRMATION, MSG_CHANNEL_EOF,
          MSG_CHANNEL_CLOSE, MSG_CHANNEL_SUCCESS] := by decide +kernel
    obtain ⟨s, hs, hmsgs⟩ := Option.map_eq_some_iff.mp hrun
    refine ⟨s, ⟨_, _, hs⟩, hmsgs, fun h => ?_⟩
    rw [hmsgs] at h
    exact absurd (h.last [MSG_CHANNEL_OPEN_CONFIRMATION, MSG_CHANNEL_EOF] _ rfl) nofun

end Dossh
