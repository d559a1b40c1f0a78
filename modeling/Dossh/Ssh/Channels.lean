import Dossh.Ssh.Guarded
import Dossh.Ssh.Record
import Dossh.Ssh.Verdict

/-!
# What happens on the channel

Only a few handlers and calls send messages of the channel or assign its windows and flags.
Everything else is `Ssh.OffChannel`.  `ChannelDeed` lists what a packet does to the channel, and
the calls of `ssh.h` are described one by one, so that a result about the channel is a case
analysis over these.
-/

namespace Dossh

open Ssh

/-! ## Messages -/

/-- The messages that are sent on an open channel, its confirmation included. -/
def channelTypes : List UInt8 :=
  [MSG_CHANNEL_OPEN_CONFIRMATION, MSG_CHANNEL_WINDOW_ADJUST, MSG_CHANNEL_DATA, MSG_CHANNEL_EOF,
    MSG_CHANNEL_CLOSE, MSG_CHANNEL_REQUEST, MSG_CHANNEL_SUCCESS, MSG_CHANNEL_FAILURE]

/-- The type of a payload that is a message of the channel. -/
def channelType (payload : List UInt8) : List UInt8 :=
  (payload.take 1).filter channelTypes.contains

/-- The message of the channel that an event sends. -/
def SshEvent.said : SshEvent → List UInt8
  | .frame _ _ payload _ => channelType payload
  | _ => []

/-- The messages of the channel that the server sent, oldest first. -/
def channelMsgs (trace : List SshEvent) : List UInt8 := trace.reverse.flatMap SshEvent.said

theorem channelMsgs_cons (e : SshEvent) (trace : List SshEvent) :
    channelMsgs (e :: trace) = channelMsgs trace ++ e.said := by
  simp [channelMsgs]

/-- An event that is neither a packet of the client nor a message of the channel. -/
def SshEvent.offChannel (e : SshEvent) : Bool := e.inner && e.said.isEmpty

theorem channelMsgs_off {es : List SshEvent} (hes : ∀ e ∈ es, e.offChannel = true)
    (trace : List SshEvent) : channelMsgs (es ++ trace) = channelMsgs trace := by
  induction es with
  | nil => rfl
  | cons e es ih =>
      have he := hes e List.mem_cons_self
      rw [SshEvent.offChannel, Bool.and_eq_true, List.isEmpty_iff] at he
      rw [List.cons_append, channelMsgs_cons, he.2, List.append_nil]
      exact ih fun e he => hes e (List.mem_cons_of_mem _ he)

/-! ## Off the channel -/

/-- The windows and flags of the channel. -/
abbrev SshConn.channel (c : SshConn) : Nat × Nat × Bool × Bool × Bool × Bool :=
  (c.peerWindow, c.peerMaxpkt, c.chanOpen, c.chanSentEof, c.chanSentClose, c.chanClosed)

/-- Nothing was said on the channel, and its windows and flags are as they were. -/
structure Ssh.OffChannel (s s' : Ssh) : Prop where
  fields : s'.c.channel = s.c.channel
  logs : s.Logs SshEvent.offChannel s'

namespace Ssh.OffChannel

variable {env : SshEnv} {s s' s'' : Ssh}

theorem of_eq (hc : s'.c.channel = s.c.channel) (htr : s'.c.trace = s.c.trace) :
    s.OffChannel s' :=
  ⟨hc, [], htr, by simp⟩

theorem of_conn (hc : s'.c = s.c) : s.OffChannel s' := .of_eq (by rw [hc]) (by rw [hc])

theorem refl (s : Ssh) : s.OffChannel s := .of_conn rfl

theorem trans (h : s.OffChannel s') (h' : s'.OffChannel s'') : s.OffChannel s'' := by
  refine ⟨h'.fields.trans h.fields, ?_⟩
  obtain ⟨es, htr, hes⟩ := h.logs
  obtain ⟨es', htr', hes'⟩ := h'.logs
  refine ⟨es' ++ es, by rw [htr', htr, List.append_assoc], fun e he => ?_⟩
  rcases List.mem_append.mp he with he' | he'
  · exact hes' e he'
  · exact hes e he'

theorem before (h' : s'.OffChannel s'') (h : s.OffChannel s') : s.OffChannel s'' := h.trans h'

theorem fail (s : Ssh) (why : String) : s.OffChannel (s.fail why) := by
  unfold Ssh.fail
  split
  · exact .of_eq rfl rfl
  · exact .refl s

theorem msgs (h : s.OffChannel s') : channelMsgs s'.c.trace = channelMsgs s.c.trace := by
  obtain ⟨es, htr, hes⟩ := h.logs
  rw [htr, channelMsgs_off hes]

end Ssh.OffChannel

/-! ## Sending -/

section

variable {env : SshEnv} {s s' : Ssh} {pl : Payload}

theorem sendUnenc_trace (env : SshEnv) (s : Ssh) (payload : List UInt8) : ∃ seq bytes,
    (s.sendUnenc env payload).c.trace = .frame false seq payload bytes :: s.c.trace := by
  unfold Ssh.sendUnenc
  dsimp only
  generalize be32 _ ++ [UInt8.ofNat _] = hdr
  generalize env.rngBytes s.g.rngPos _ = pad
  generalize hs₁ : Ssh.obAppend env (Ssh.rngSkip _ _) pad = s₁
  have htr : s₁.c.trace = s.c.trace := by
    rw [← hs₁, (Records.obAppend env _ _).1]
    exact (Records.obAppend env _ payload).1.trans (Records.obAppend env s hdr).1
  exact ⟨s₁.c.sendSeq, _, congrArg (_ :: ·) htr⟩

/-- A packet that is short enough is framed. -/
theorem sendPacket_trace (env : SshEnv) (s : Ssh) {payload : List UInt8}
    (hlen : payload.length ≤ SSH_ENC_MAX_PLEN) : ∃ enc seq bytes,
    (s.sendPacket env payload).c.trace = .frame enc seq payload bytes :: s.c.trace := by
  unfold Ssh.sendPacket
  split
  · rw [Ssh.sendEnc, if_neg (Nat.not_lt.mpr hlen)]
    exact ⟨true, s.c.sendSeq, (s.aeadSeal env payload).1, (Records.obAppend env _ _).1⟩
  · obtain ⟨seq, bytes, htr⟩ := sendUnenc_trace env s payload
    exact ⟨false, seq, bytes, htr⟩

/-- Sending frames the packet or nothing. -/
theorem sendPacket_logs (env : SshEnv) (s : Ssh) (payload : List UInt8) :
    (s.sendPacket env payload).c.trace = s.c.trace ∨ ∃ enc seq bytes,
      (s.sendPacket env payload).c.trace = .frame enc seq payload bytes :: s.c.trace := by
  rcases Nat.lt_or_ge SSH_ENC_MAX_PLEN payload.length with hlong | hlen
  · unfold Ssh.sendPacket
    split
    · rw [Ssh.sendEnc, if_pos hlong]
      unfold Ssh.fail
      split <;> exact .inl rfl
    · obtain ⟨seq, bytes, htr⟩ := sendUnenc_trace env s payload
      exact .inr ⟨false, seq, bytes, htr⟩
  · exact .inr (sendPacket_trace env s hlen)

theorem sendPacket_channel (env : SshEnv) (s : Ssh) (payload : List UInt8) :
    (s.sendPacket env payload).c.channel = s.c.channel := by
  rw [(Sends.sendPacket env s payload).conn]

/-- Sending something that is not a message of the channel. -/
theorem Ssh.OffChannel.send (env : SshEnv) (s : Ssh) {payload : List UInt8}
    (hoff : channelType payload = []) : s.OffChannel (s.sendPacket env payload) := by
  refine ⟨sendPacket_channel env s payload, ?_⟩
  rcases sendPacket_logs env s payload with htr | ⟨enc, seq, bytes, htr⟩
  · exact ⟨[], htr, by simp⟩
  · exact ⟨[_], htr, by simp [SshEvent.offChannel, SshEvent.inner, SshEvent.said, hoff]⟩

/-- Sending a message of the channel. -/
theorem channelMsgs_send (env : SshEnv) (s : Ssh) {type : UInt8} {rest : List UInt8}
    (htype : type ∈ channelTypes) (hlen : rest.length < SSH_ENC_MAX_PLEN) :
    channelMsgs (s.sendPacket env (type :: rest)).c.trace = channelMsgs s.c.trace ++ [type] := by
  have hfits : (type :: rest).length ≤ SSH_ENC_MAX_PLEN := hlen
  obtain ⟨enc, seq, bytes, htr⟩ := sendPacket_trace env s hfits
  rw [htr, channelMsgs_cons, SshEvent.said, channelType]
  simp [htype]

/-! ## Handlers off the channel -/

theorem handleGlobalRequest_off (env : SshEnv) (s : Ssh) (pl : Payload) :
    s.OffChannel (handleGlobalRequest env s pl) := by
  unfold handleGlobalRequest
  dsimp only
  repeat' split
  · exact .refl s
  · exact (OffChannel.send env _ rfl).before (.of_conn rfl)
  · exact .of_conn rfl
  · exact .of_conn rfl

theorem negCheck_off (s : Ssh) (first : UInt8) (kex hk enc1 enc2 : Payload) :
    s.OffChannel (negCheck s first kex hk enc1 enc2).2 := by
  generalize hr : negCheck s first kex hk enc1 enc2 = r
  unfold negCheck at hr
  dsimp only at hr
  generalize hs₁ : (if kex.nlHas "curve25519-sha256" then s.readNlHas kex "curve25519-sha256"
      else (s.readNlHas kex "curve25519-sha256").readNlHas kex
        "curve25519-sha256@libssh.org") = s₁ at hr
  have h₁ : s.OffChannel s₁ := by
    rw [← hs₁]
    split <;> exact .of_conn rfl
  repeat' split at hr
  all_goals subst hr
  · exact h₁
  · exact h₁.trans (.of_conn rfl)
  · exact h₁.trans (.of_conn rfl)
  · exact h₁.trans (.of_conn rfl)
  · exact h₁.trans (.of_eq rfl rfl)

theorem handleKexinit_off (env : SshEnv) (s : Ssh) (pl : Payload) :
    s.OffChannel (handleKexinit env s pl) := by
  have hneg : s.OffChannel (negotiate env s pl).2 := by
    generalize hr : negotiate env s pl = r
    unfold negotiate at hr
    generalize negLists env pl 10 17 = q at hr
    obtain ⟨reads, found⟩ := q
    cases found with
    | none =>
        subst hr
        exact .of_conn rfl
    | some found =>
        dsimp only at hr
        split at hr
        · subst hr
          exact .of_conn rfl
        · subst hr
          exact (negCheck_off _ _ _ _ _ _).before (.of_eq rfl rfl)
  generalize hr : negotiate env s pl = r at hneg
  unfold handleKexinit
  rw [hr]
  obtain ⟨res, s₁⟩ := r
  cases res with
  | malformed => exact hneg.trans (.fail _ _)
  | noCommon => exact hneg.trans (.fail _ _)
  | ok => exact hneg.trans (.of_eq rfl rfl)

theorem ecdhReply_off (env : SshEnv) (s : Ssh) (qC qS raw : List UInt8) :
    s.OffChannel (ecdhReply env s qC qS raw) := by
  unfold ecdhReply
  dsimp only
  generalize s.c.hctx ++ putStr (buildKsBlob env) ++ putStr qC ++ putStr qS ++ buildKmpint raw
    = hctx
  generalize env.crypto.sha256 hctx = hash
  generalize buildKmpint raw = k
  generalize (if s.c.haveSessionId = true then s.c.sessionId else hash) = sid
  have h₁ : s.OffChannel { s with
      g := { s.g with kmpint := k, hash := hash }
      c := { s.c with hctx := hctx, sessionId := sid, haveSessionId := true } } := .of_eq rfl rfl
  have hreply : channelType ([MSG_KEX_ECDH_REPLY] ++ putStr (buildKsBlob env) ++ putStr qS ++
      putStr (putNl "ssh-ed25519" ++ putStr (env.crypto.ed25519Sign env.hostkeySk hash))) = [] :=
    rfl
  have h₂ := h₁.trans (.send env _ hreply)
  generalize Ssh.sendPacket env _ ([MSG_KEX_ECDH_REPLY] ++ _ ++ _ ++ _) = s₂ at h₂ ⊢
  generalize deriveKey env.crypto k hash s₂.c.sessionId 67 64 = ekC
  generalize deriveKey env.crypto k hash s₂.c.sessionId 68 64 = ekS
  have h₃ : s₂.OffChannel { s₂ with
      c := { s₂.c with ekC2s := ekC, ekS2c := ekS, keysReady := true } } := .of_eq rfl rfl
  have h₄ := (h₂.trans h₃).trans (.send env _ (rfl : channelType [MSG_NEWKEYS] = []))
  generalize Ssh.sendPacket env _ [MSG_NEWKEYS] = s₄ at h₄ ⊢
  exact h₄.trans (.of_eq rfl rfl)

theorem handleEcdhInit_off (env : SshEnv) (s : Ssh) (pl : Payload) :
    s.OffChannel (handleEcdhInit env s pl) := by
  unfold handleEcdhInit
  dsimp only
  repeat' split
  · exact .of_eq rfl rfl
  · exact .fail s _
  · exact (OffChannel.fail _ _).before (.of_conn rfl)
  · exact (OffChannel.fail _ _).before (.of_conn rfl)
  · exact (ecdhReply_off env _ _ _ _).before (.of_conn rfl)

theorem handleServiceRequest_off (env : SshEnv) (s : Ssh) (pl : Payload) :
    s.OffChannel (handleServiceRequest env s pl) := by
  unfold handleServiceRequest
  dsimp only
  repeat' split
  · exact .fail s _
  · exact (OffChannel.fail _ _).before (.of_conn rfl)
  · generalize (pl.sub 5 (env.u (pl.u32 1))).bytes = name
    generalize hs₁ : ((s.read pl 1 4).read pl 5 (env.u (pl.u32 1))) = s₁
    have h₁ : s.OffChannel { s₁ with c := { s₁.c with svcName := name, done := true } } := by
      rw [← hs₁]
      exact .of_eq rfl rfl
    have h₂ := h₁.trans (.send env _ (rfl : channelType ([MSG_SERVICE_ACCEPT] ++ putStr name) = []))
    generalize Ssh.sendPacket env _ ([MSG_SERVICE_ACCEPT] ++ _) = s₂ at h₂ ⊢
    exact h₂.trans (.of_eq rfl rfl)

theorem authReject_off (env : SshEnv) (s : Ssh) (counted : Bool) :
    s.OffChannel (authReject env s counted) := by
  unfold authReject
  generalize hs₁ : (if counted then
    { s with c := { s.c with authFails := env.u (s.c.authFails + 1) } } else s) = s₁
  have h₁ : s.OffChannel s₁ := by
    rw [← hs₁]
    split
    · exact .of_eq rfl rfl
    · exact .refl s
  dsimp only
  split
  · have h₂ := h₁.trans (.send env s₁ (rfl : channelType ([MSG_DISCONNECT] ++
      be32 DISCONNECT_NO_MORE_AUTH ++ putNl "too many authentication failures" ++ putNl "") = []))
    exact h₂.trans (.of_eq rfl rfl)
  · exact h₁.trans (.send env s₁ rfl)

theorem handleUserauthRequest_off (env : SshEnv) (s : Ssh) (pl : Payload) :
    s.OffChannel (handleUserauthRequest env s pl) := by
  have hf := handleUserauthRequest_follows env s pl
  have hlook : ∀ {s₁ : Ssh}, s.Looks s₁ → s.OffChannel s₁ := by
    intro s₁ h
    refine .of_eq ?_ ?_
    all_goals rw [h.conn]
  generalize userauthVerdict env s.c.sessionId pl = v at hf
  cases hf with
  | malformed s₁ h why hs' =>
      rw [hs']
      exact (hlook h).trans (.fail s₁ why)
  | probed s₁ h algo blob hs' =>
      rw [hs']
      exact (hlook h).trans (.send env s₁ rfl)
  | refused s₁ h counted hs' =>
      rw [hs']
      exact (hlook h).trans (authReject_off env s₁ counted)
  | granted s₁ h hs' =>
      rw [hs', sendUserauthSuccess]
      have h₂ := (hlook h).trans (.send env s₁ (rfl : channelType [MSG_USERAUTH_SUCCESS] = []))
      generalize s₁.sendPacket env [MSG_USERAUTH_SUCCESS] = s₂ at *
      exact h₂.trans (.of_eq rfl rfl)

/-! ## Packets of the session -/

/-- The initial window and the maximal packet of a request to open the session channel. -/
def openRequest (env : SshEnv) (payload : List UInt8) : Option (Nat × Nat) :=
  let p := fun k => payload.getD k 0
  if payload.headD 0 = MSG_CHANNEL_OPEN ∧ 24 ≤ payload.length ∧ env.u (rd32 p 1) = 7 ∧
      (payload.drop 5).take 7 = ascii "session" then
    some (rd32 p 16, rd32 p 20)
  else none

/-- What a message adds to the window of the peer. -/
def adjustment (payload : List UInt8) : Nat :=
  if payload.headD 0 = MSG_CHANNEL_WINDOW_ADJUST ∧ 9 ≤ payload.length then
    rd32 (fun k => payload.getD k 0) 5
  else 0

/-- A request that wants a reply. -/
def AsksReply (env : SshEnv) (pl : Payload) : Prop :=
  pl.msg = MSG_CHANNEL_REQUEST ∧ 9 ≤ pl.len ∧
    env.u (env.u (9 + env.u (pl.u32 5)) + 1) ≤ pl.len ∧
    pl.get (env.u (9 + env.u (pl.u32 5))) ≠ 0

/-- The length of the data in a `CHANNEL_DATA`, cut off at the end of the packet. -/
def dataLen (env : SshEnv) (pl : Payload) : Nat :=
  if env.u (9 + env.u (pl.u32 5)) > pl.len then pl.len - 9 else env.u (pl.u32 5)

/-- Data after which the window is opened again. -/
def TopsUp (env : SshEnv) (c : SshConn) (pl : Payload) : Prop :=
  pl.msg = MSG_CHANNEL_DATA ∧ 9 ≤ pl.len ∧ c.localWindow - dataLen env pl < SSH_LOCAL_WINDOW / 2

/-- A packet that the server answers on the channel. -/
def Answered (env : SshEnv) (c : SshConn) (pl : Payload) : Prop :=
  c.state = .session ∧ (AsksReply env pl ∨ TopsUp env c pl)

instance (env : SshEnv) (pl : Payload) : Decidable (AsksReply env pl) :=
  inferInstanceAs (Decidable (_ ∧ _))

instance (env : SshEnv) (c : SshConn) (pl : Payload) : Decidable (TopsUp env c pl) :=
  inferInstanceAs (Decidable (_ ∧ _))

instance (env : SshEnv) (c : SshConn) (pl : Payload) : Decidable (Answered env c pl) :=
  inferInstanceAs (Decidable (_ ∧ _))

/-- What a packet does to the channel. -/
inductive ChannelDeed (env : SshEnv) (pl : Payload) (s s' : Ssh) : Prop where
  | off (h : s.OffChannel s')
      (hopen : s.c.state = .session → s.c.chanOpen = false → openRequest env pl.bytes = none)
      (hadj : s.c.state = .session → adjustment pl.bytes = 0)
  | opened (hst : s.c.state = .session) (hmsg : pl.msg = MSG_CHANNEL_OPEN)
      (hopen : s.c.chanOpen = false) (iwin maxp : Nat)
      (hreq : openRequest env pl.bytes = some (iwin, maxp)) (s₁ : Ssh)
      (htr : s₁.c.trace = s.c.trace)
      (hfields : s₁.c.channel =
        (iwin, maxp, true, s.c.chanSentEof, s.c.chanSentClose, s.c.chanClosed))
      (rest : List UInt8) (hlen : rest.length < SSH_ENC_MAX_PLEN)
      (hs' : s' = s₁.sendPacket env (MSG_CHANNEL_OPEN_CONFIRMATION :: rest))
  | replied (hask : Answered env s.c pl) (s₁ : Ssh) (h : s.OffChannel s₁) (type : UInt8)
      (htype : type ∈ [MSG_CHANNEL_WINDOW_ADJUST, MSG_CHANNEL_SUCCESS, MSG_CHANNEL_FAILURE])
      (rest : List UInt8) (hlen : rest.length < SSH_ENC_MAX_PLEN)
      (hs' : (s₁.sendPacket env (type :: rest)).OffChannel s')
  | credited (hst : s.c.state = .session) (hmsg : pl.msg = MSG_CHANNEL_WINDOW_ADJUST)
      (htr : s'.c.trace = s.c.trace)
      (hfields : s'.c.channel = ((s.c.peerWindow + adjustment pl.bytes) % 4294967296,
        s.c.peerMaxpkt, s.c.chanOpen, s.c.chanSentEof, s.c.chanSentClose, s.c.chanClosed))
  | closed (hst : s.c.state = .session) (hmsg : pl.msg = MSG_CHANNEL_CLOSE) (s₁ s₂ : Ssh)
      (hc : s₁.c = s.c) (hg : s₁.g = s.g)
      (hs₂ : s₂ = if !s.c.chanSentClose then sshChannelClose env s₁ else s₁)
      (hs' : s'.c = { s₂.c with chanClosed := true, state := .closed })

theorem Payload.headD_bytes (pl : Payload) : pl.bytes.headD 0 = pl.msg := by
  unfold Payload.bytes Payload.msg Payload.get
  cases pl.len with
  | zero => rfl
  | succ k => rw [if_pos (Nat.succ_ne_zero k), slice_succ]; rfl

theorem openRequest_msg {iwin maxp : Nat} (h : openRequest env pl.bytes = some (iwin, maxp)) :
    pl.msg = MSG_CHANNEL_OPEN := by
  unfold openRequest at h
  dsimp only at h
  split at h
  next hreq => rw [← pl.headD_bytes, hreq.1]
  next => cases h

theorem adjustment_msg (h : pl.msg ≠ MSG_CHANNEL_WINDOW_ADJUST) : adjustment pl.bytes = 0 := by
  rw [adjustment, if_neg]
  rw [pl.headD_bytes]
  exact fun hreq => h hreq.1

/-- A message that neither opens nor credits. -/
theorem ChannelDeed.of_off (h : s.OffChannel s') (hopen : pl.msg ≠ MSG_CHANNEL_OPEN)
    (hadj : pl.msg ≠ MSG_CHANNEL_WINDOW_ADJUST) : ChannelDeed env pl s s' := by
  refine .off h (fun _ _ => ?_) fun _ => adjustment_msg hadj
  cases hreq : openRequest env pl.bytes with
  | none => rfl
  | some r => exact absurd (openRequest_msg hreq) hopen

/-- The fields of an opening request lie inside the payload. -/
theorem openRequest_iff (env : SshEnv) (pl : Payload) (hmsg : pl.msg = MSG_CHANNEL_OPEN) :
    openRequest env pl.bytes =
      if 24 ≤ pl.len ∧ (pl.sub 5 (env.u (pl.u32 1))).bytes = ascii "session" then
        some (pl.u32 16, pl.u32 20)
      else none := by
  have hlen : pl.bytes.length = pl.len := by rw [Payload.bytes, length_slice]
  have hseven : (ascii "session").length = 7 := rfl
  unfold openRequest
  rw [pl.headD_bytes, hmsg, hlen]
  rcases Nat.lt_or_ge pl.len 24 with hshort | hfull
  · rw [if_neg (by omega), if_neg (by omega)]
  have h1 := @Payload.u32_of_bytes pl _ rfl 1 (by omega)
  have h16 := @Payload.u32_of_bytes pl _ rfl 16 (by omega)
  have h20 := @Payload.u32_of_bytes pl _ rfl 20 (by omega)
  have hname : (pl.bytes.drop 5).take 7 = (pl.sub 5 7).bytes := by
    rw [Payload.bytes, Payload.bytes, drop_slice, (by omega : pl.len - 5 = 7 + (pl.len - 12)),
      slice_add, List.take_left' (length_slice _ _ _)]
    rfl
  dsimp only
  rw [← h1, ← h16, ← h20, hname]
  generalize env.u (pl.u32 1) = tlen
  by_cases htlen : tlen = 7
  · subst htlen
    simp [hfull]
  · have hne : (pl.sub 5 tlen).bytes ≠ ascii "session" := by
      intro heq
      have hl := congrArg List.length heq
      rw [Payload.bytes, length_slice, hseven] at hl
      exact htlen hl
    rw [if_neg (fun h => htlen h.2.2.1), if_neg (fun h => hne h.2)]

/-! ## Handlers of the session -/

theorem ChannelDeed.of_msg (h : s.OffChannel s') (hadj : pl.msg ≠ MSG_CHANNEL_WINDOW_ADJUST)
    (hopen : s.c.chanOpen = false → openRequest env pl.bytes = none) : ChannelDeed env pl s s' :=
  .off h (fun _ => hopen) fun _ => adjustment_msg hadj

theorem channelOpenReply_refused (env : SshEnv) (s : Ssh) (sender iwin maxp : Nat)
    {isSession : Bool} (h : (s.c.chanOpen || !isSession) = true) :
    s.OffChannel (channelOpenReply env s isSession sender iwin maxp) := by
  unfold channelOpenReply
  rw [if_pos h]
  exact .send env s rfl

theorem handleChannelOpen_channel (hst : s.c.state = .session) (hmsg : pl.msg = MSG_CHANNEL_OPEN) :
    ChannelDeed env pl s (handleChannelOpen env s pl) := by
  have hadj : pl.msg ≠ MSG_CHANNEL_WINDOW_ADJUST := by
    rw [hmsg]
    decide
  have hreq := openRequest_iff env pl hmsg
  generalize htlen : env.u (pl.u32 1) = tlen at hreq
  have hname : (pl.sub 5 tlen).bytes = ascii "session" → tlen = 7 := by
    intro heq
    have hl := congrArg List.length heq
    rw [Payload.bytes, length_slice] at hl
    exact hl
  have hfive : env.u (1 + 4) = 5 := env.u_small (by omega)
  have htwelve : env.u (5 + 7) = 12 := env.u_small (by omega)
  have htwo : env.u (12 + 12) = 24 := env.u_small (by omega)
  unfold handleChannelOpen
  rw [hfive, htlen]
  dsimp only
  split
  next hshort =>
    refine .of_msg (.fail s _) hadj fun _ => ?_
    rw [hreq, if_neg (by omega)]
  next hlong =>
    generalize ho : env.u (5 + tlen) = o
    split
    next hshort =>
      refine .of_msg ((OffChannel.fail _ _).before (.of_conn rfl)) hadj fun _ => ?_
      rw [hreq, if_neg]
      rintro ⟨hfull, hsession⟩
      rw [hname hsession, htwelve] at ho
      rw [← ho, htwo] at hshort
      omega
    next hroom =>
      generalize hs₁ : (if (!_ && decide (tlen = 7)) = true then _ else _ : Ssh) = s₁
      have hc : s₁.c = s.c := by
        rw [← hs₁]
        split <;> rfl
      have hbefore : s.OffChannel s₁ := .of_conn hc
      by_cases hrefuse : (s₁.c.chanOpen || !decide ((pl.sub 5 tlen).bytes = ascii "session")) = true
      · refine .of_msg (hbefore.trans (channelOpenReply_refused env s₁ _ _ _ hrefuse)) hadj
          fun hclosed => ?_
        rw [hc, hclosed, Bool.false_or, Bool.not_eq_true', decide_eq_false_iff_not] at hrefuse
        rw [hreq, if_neg fun h => hrefuse h.2]
      · have hopen := hrefuse
        rw [hc, Bool.or_eq_true, not_or, Bool.not_eq_true, Bool.not_eq_true, Bool.not_eq_false',
          decide_eq_true_eq] at hopen
        rw [hname hopen.2, htwelve] at ho
        rw [← ho, htwo] at hroom
        have hfour : env.u (12 + 4) = 16 := env.u_small (by omega)
        have height : env.u (12 + 8) = 20 := env.u_small (by omega)
        rw [channelOpenReply, if_neg hrefuse]
        refine .opened hst hmsg hopen.1 (pl.u32 16) (pl.u32 20) ?_ { s₁ with c := { s₁.c with
          peerChan := pl.u32 o, peerWindow := pl.u32 16, peerMaxpkt := pl.u32 20, localChan := 0
          localWindow := SSH_LOCAL_WINDOW, chanOpen := true } } ?_ ?_
          (be32 (pl.u32 o) ++ be32 0 ++ be32 SSH_LOCAL_WINDOW ++ be32 SSH_CHAN_MAXPKT) ?_ ?_
        · rw [hreq, if_pos ⟨by omega, hopen.2⟩]
        · dsimp only
          rw [hc]
        · dsimp only
          rw [hc]
        · exact (by decide : 16 < SSH_ENC_MAX_PLEN)
        · rw [← ho, hfour, height]
          rfl

theorem Ssh.OffChannel.winsize (s : Ssh) (cols rows : Nat) :
    s.OffChannel { s with c := { s.c with termCols := cols, termRows := rows } } := .of_eq rfl rfl

theorem Ssh.OffChannel.localWindow (s : Ssh) (window : Nat) :
    s.OffChannel { s with c := { s.c with localWindow := window } } := .of_eq rfl rfl

theorem readWinsize_off (env : SshEnv) (s : Ssh) (pl : Payload) (o : Nat) :
    s.OffChannel (readWinsize env s pl o) := by
  unfold readWinsize
  split
  · exact (OffChannel.winsize _ _ _).before (.of_conn rfl)
  · exact .refl s

theorem channelRequest_off (env : SshEnv) (s : Ssh) (pl rtype : Payload) (o : Nat) :
    s.OffChannel (channelRequest env s pl rtype o).2 := by
  unfold channelRequest
  generalize hs₁ : (if rtype.len = 7 ∨ rtype.len = 5 ∨ rtype.len = 4 ∨ rtype.len = 13 then
    s.readAll rtype else s) = s₁
  have h₁ : s.OffChannel s₁ := by
    rw [← hs₁]
    split
    · exact .of_conn rfl
    · exact .refl s
  dsimp only
  split
  · generalize env.u (o + 4 + env.u (pl.u32 o)) = o₂
    generalize hs₂ : (if env.u (o + 4) ≤ pl.len then readWinsize env (s₁.read pl o 4) pl o₂
      else s₁) = s₂
    have h₂ : s₁.OffChannel s₂ := by
      rw [← hs₂]
      split
      · exact (readWinsize_off env _ pl o₂).before (.of_conn rfl)
      · exact .refl s₁
    exact (h₁.trans h₂).trans (.of_eq rfl rfl)
  · split
    · exact h₁.trans (.of_eq rfl rfl)
    · split
      · exact h₁.trans (readWinsize_off env s₁ pl o)
      · exact h₁

theorem handleChannelRequest_channel (hst : s.c.state = .session)
    (hmsg : pl.msg = MSG_CHANNEL_REQUEST) :
    ChannelDeed env pl s (handleChannelRequest env s pl) := by
  have hopen : pl.msg ≠ MSG_CHANNEL_OPEN := by
    rw [hmsg]
    decide
  have hadj : pl.msg ≠ MSG_CHANNEL_WINDOW_ADJUST := by
    rw [hmsg]
    decide
  have hfive : env.u (1 + 4) = 5 := env.u_small (by omega)
  have hnine : env.u (5 + 4) = 9 := env.u_small (by omega)
  unfold handleChannelRequest
  rw [hfive, hnine]
  dsimp only
  generalize htype : env.u (pl.u32 5) = rtlen
  generalize ho : env.u (9 + rtlen) = o
  split
  · exact .of_off (.refl s) hopen hadj
  split
  · exact .of_off (.refl s) hopen hadj
  next hnine' =>
    split
    · exact .of_off (.of_conn rfl) hopen hadj
    next hroom =>
      have hoff := (channelRequest_off env ((s.read pl 5 4).read pl o 1) pl (pl.sub 9 rtlen)
        (env.u (o + 1))).before (.of_conn (s := s) rfl)
      generalize channelRequest env _ pl _ _ = r at hoff ⊢
      split
      next hwant =>
        refine .replied ⟨hst, .inl ⟨hmsg, by omega, ?_, ?_⟩⟩ r.2 hoff
          (if r.1 then MSG_CHANNEL_SUCCESS else MSG_CHANNEL_FAILURE) ?_ (be32 r.2.c.peerChan)
          (by exact (by decide : 4 < SSH_ENC_MAX_PLEN)) (.refl _)
        · rw [htype, ho]
          omega
        · rw [htype, ho]
          exact hwant
        · split <;> decide
      next => exact .of_off hoff hopen hadj

theorem cinLoop_off (pl : Payload) : ∀ (k o : Nat) (s : Ssh),
    s.OffChannel (cinLoop pl k o s) ∧ (cinLoop pl k o s).c.localWindow = s.c.localWindow
  | 0, _, s => ⟨.refl s, rfl⟩
  | k + 1, o, s => by
      rw [cinLoop]
      split
      · exact ⟨.refl s, rfl⟩
      · have hkey : s.OffChannel ((s.read pl o 1).pushKey (pl.get o)) :=
          ⟨rfl, [.key (pl.get o)], rfl, by simp [SshEvent.offChannel, SshEvent.inner, SshEvent.said]⟩
        obtain ⟨hoff, hwindow⟩ := cinLoop_off pl k (o + 1) ((s.read pl o 1).pushKey (pl.get o))
        exact ⟨hkey.trans hoff, hwindow⟩

theorem adjustLocalWindow_channel (env : SshEnv) (s : Ssh) (consumed : Nat) :
    s.OffChannel (adjustLocalWindow env s consumed) ∨
    s.c.localWindow - consumed < SSH_LOCAL_WINDOW / 2 ∧ ∃ s₁ rest, s.OffChannel s₁ ∧
      rest.length < SSH_ENC_MAX_PLEN ∧
      (s₁.sendPacket env (MSG_CHANNEL_WINDOW_ADJUST :: rest)).OffChannel
        (adjustLocalWindow env s consumed) := by
  unfold adjustLocalWindow
  have htaken := OffChannel.localWindow s (s.c.localWindow - consumed)
  generalize hs₁ : ({ s with c := { s.c with
    localWindow := s.c.localWindow - consumed } } : Ssh) = s₁ at htaken
  have hwindow : s₁.c.localWindow = s.c.localWindow - consumed := by rw [← hs₁]
  dsimp only
  split
  · exact .inl htaken
  next hlow =>
    rw [hwindow, Nat.not_le] at hlow
    refine .inr ⟨hlow, s₁, be32 s₁.c.peerChan ++ be32 (SSH_LOCAL_WINDOW - s₁.c.localWindow),
      htaken, ?_, .localWindow _ _⟩
    rw [List.length_append]
    exact (by decide : 4 + 4 < SSH_ENC_MAX_PLEN)

theorem handleChannelData_channel (hst : s.c.state = .session) (hmsg : pl.msg = MSG_CHANNEL_DATA) :
    ChannelDeed env pl s (handleChannelData env s pl) := by
  have hopen : pl.msg ≠ MSG_CHANNEL_OPEN := by
    rw [hmsg]
    decide
  have hadj : pl.msg ≠ MSG_CHANNEL_WINDOW_ADJUST := by
    rw [hmsg]
    decide
  unfold handleChannelData
  split
  · exact .of_off (.refl s) hopen hadj
  next hroom =>
    have hlen : (if env.u (9 + env.u (pl.u32 5)) > pl.len then pl.len - 9 else env.u (pl.u32 5)) =
        dataLen env pl := rfl
    dsimp only
    rw [hlen]
    generalize hd : dataLen env pl = d
    obtain ⟨hoff, hwindow⟩ := cinLoop_off pl d 9 (s.read pl 5 4)
    have hbefore := hoff.before (.of_conn (s := s) rfl)
    generalize cinLoop pl d 9 (s.read pl 5 4) = s₁ at hbefore hwindow ⊢
    have hw : s₁.c.localWindow = s.c.localWindow := hwindow
    rcases adjustLocalWindow_channel env s₁ d with hadjust | ⟨hlow, s₂, rest, h₂, hlen, hsent⟩
    · exact .of_off (hbefore.trans hadjust) hopen hadj
    · refine .replied ⟨hst, .inr ⟨hmsg, Nat.not_lt.mp hroom, ?_⟩⟩ s₂ (hbefore.trans h₂)
        MSG_CHANNEL_WINDOW_ADJUST (by decide) rest hlen hsent
      rw [hd, ← hw]
      exact hlow

theorem handleChannelWindowAdjust_channel (hst : s.c.state = .session)
    (hmsg : pl.msg = MSG_CHANNEL_WINDOW_ADJUST) :
    ChannelDeed env pl s (handleChannelWindowAdjust s pl) := by
  have hlen : pl.bytes.length = pl.len := by rw [Payload.bytes, length_slice]
  have hadj : adjustment pl.bytes = if 9 ≤ pl.len then pl.u32 5 else 0 := by
    unfold adjustment
    rw [pl.headD_bytes, hmsg, hlen]
    rcases Nat.lt_or_ge pl.len 9 with hshort | hlong
    · rw [if_neg (by omega), if_neg (by omega)]
    · rw [if_pos ⟨rfl, hlong⟩, if_pos hlong]
      exact (Payload.u32_of_bytes rfl (by omega)).symm
  unfold handleChannelWindowAdjust
  split
  next hshort =>
    refine .off (.refl s) (fun _ _ => ?_) fun _ => by rw [hadj, if_neg (by omega)]
    cases hreq : openRequest env pl.bytes with
    | none => rfl
    | some r =>
        have hopen := openRequest_msg hreq
        rw [hmsg] at hopen
        cases hopen
  next hlong =>
    rw [if_pos (Nat.not_lt.mp hlong)] at hadj
    rw [← hadj]
    exact .credited hst hmsg rfl rfl

theorem handleSession_channel (hst : s.c.state = .session) :
    ChannelDeed env pl s (handleSession env s pl pl.msg) := by
  unfold handleSession
  split
  next hmsg => exact handleChannelOpen_channel hst hmsg
  next hopen =>
    split
    next hmsg => exact handleChannelRequest_channel hst hmsg
    next =>
      split
      next hmsg => exact handleChannelData_channel hst hmsg
      next =>
        split
        next hmsg => exact handleChannelWindowAdjust_channel hst hmsg
        next hadj =>
          split
          · exact .of_off (.of_eq rfl rfl) hopen hadj
          · split
            next hmsg => exact .closed hst hmsg s _ rfl rfl rfl rfl
            next => exact .of_off (.refl s) hopen hadj

theorem ChannelDeed.before {s₁ : Ssh} (h : ChannelDeed env pl s₁ s') (hc : s₁.c = s.c)
    (hg : s₁.g = s.g) : ChannelDeed env pl s s' := by
  have hoff : s.OffChannel s₁ := .of_conn hc
  cases h with
  | off h hopen hadj =>
      rw [hc] at hopen hadj
      exact .off (hoff.trans h) hopen hadj
  | opened hst hmsg hopen iwin maxp hreq s₂ htr hfields rest hlen hs' =>
      rw [hc] at hst hopen htr hfields
      exact .opened hst hmsg hopen iwin maxp hreq s₂ htr hfields rest hlen hs'
  | replied hask s₂ h type htype rest hlen hs' =>
      rw [hc] at hask
      exact .replied hask s₂ (hoff.trans h) type htype rest hlen hs'
  | credited hst hmsg htr hfields =>
      rw [hc] at hst htr hfields
      exact .credited hst hmsg htr hfields
  | closed hst hmsg s₂ s₃ hc₂ hg₂ hs₃ hs' =>
      rw [hc] at hst hs₃
      exact .closed hst hmsg s₂ s₃ (hc₂.trans hc) (hg₂.trans hg) hs₃ hs'

theorem handleByState_off (env : SshEnv) (s : Ssh) (pl : Payload) (hst : s.c.state ≠ .session) :
    s.OffChannel (handleByState env s pl pl.msg) := by
  unfold handleByState
  split
  · split
    · exact .fail s _
    · exact handleKexinit_off env s pl
  · split
    · exact .fail s _
    · exact handleEcdhInit_off env s pl
  · split
    · exact .fail s _
    · exact .of_eq rfl rfl
  · split
    · exact .fail s _
    · exact handleServiceRequest_off env s pl
  · split
    · exact handleUserauthRequest_off env s pl
    · exact .refl s
  next h => exact absurd h hst
  all_goals exact .fail s _

/-- What a packet does to the channel. -/
theorem handlePacket_channel (env : SshEnv) (s : Ssh) (pl : Payload) :
    ChannelDeed env pl s (handlePacket env s pl) := by
  unfold handlePacket
  generalize hs₁ : (if pl.len ≠ 0 then s.read pl 0 1 else s) = s₁
  have hc : s₁.c = s.c := by
    rw [← hs₁]
    split <;> rfl
  have hg : s₁.g = s.g := by
    rw [← hs₁]
    split <;> rfl
  refine ChannelDeed.before ?_ hc hg
  dsimp only
  split
  next hmsg =>
    exact .of_off (.of_eq rfl rfl) (by rw [hmsg]; decide) (by rw [hmsg]; decide)
  next =>
    split
    next hmsg =>
      refine .of_off (.refl s₁) ?_ ?_
      all_goals
        rcases hmsg with hmsg | hmsg | hmsg <;> rw [hmsg] <;> decide
    next =>
      split
      next hmsg =>
        exact .of_off (handleGlobalRequest_off env s₁ pl) (by rw [hmsg]; decide)
          (by rw [hmsg]; decide)
      next =>
        by_cases hst : s₁.c.state = .session
        · have hsession : handleByState env s₁ pl pl.msg = handleSession env s₁ pl pl.msg := by
            rw [handleByState, hst]
          rw [hsession]
          exact handleSession_channel hst
        · exact .off (handleByState_off env s₁ pl hst) (fun h => absurd h hst) fun h => absurd h hst

/-! ## Calls -/

/-- Data that `ssh_channel_flush` puts into one packet. -/
structure Ssh.Chunk (s : Ssh) (data : List UInt8) : Prop where
  pos : 0 < data.length
  chunk : data.length ≤ SSH_CHAN_CHUNK
  window : data.length ≤ s.c.peerWindow
  maxpkt : data.length ≤ s.c.peerMaxpkt
  room : s.g.ob.length + data.length + 64 ≤ SSH_OB_SZ

/-- The rest of a `CHANNEL_DATA` behind its number. -/
def dataRest (c : SshConn) (data : List UInt8) : List UInt8 := be32 c.peerChan ++ putStr data

theorem channelData_cons (c : SshConn) (data : List UInt8) :
    channelData c data = MSG_CHANNEL_DATA :: dataRest c data := rfl

theorem length_dataRest (c : SshConn) (data : List UInt8) :
    (dataRest c data).length = 8 + data.length := by
  simp [dataRest, putStr, be32, Nat.add_comm, Nat.add_left_comm]

theorem dataRest_lt (c : SshConn) {data : List UInt8} (h : data.length ≤ SSH_CHAN_CHUNK) :
    (dataRest c data).length < SSH_ENC_MAX_PLEN := by
  have hchunk : SSH_CHAN_CHUNK = 200 := rfl
  have hmax : SSH_ENC_MAX_PLEN = 247 := rfl
  rw [length_dataRest]
  omega

/-- What holds after every packet of the loop of `ssh_channel_flush`, with or without the
bookkeeping behind it, holds after the loop. -/
theorem flushLoop_keeps {P : Ssh → Prop}
    (hfailed : ∀ s data, P s → s.Chunk data →
      (s.sendPacket env (channelData s.c data)).c.state = .error →
        P (s.sendPacket env (channelData s.c data)))
    (hsent : ∀ s s₁ data, P s → s.Chunk data → s₁ = s.sendPacket env (channelData s.c data) →
      s₁.c.state ≠ .error →
        P { s₁ with c := { s₁.c with peerWindow := s₁.c.peerWindow - data.length } }) :
    ∀ (fuel sent : Nat) {s : Ssh}, P s → P (flushLoop env fuel sent s).2
  | 0, _, s, h => h
  | fuel + 1, sent, s, h => by
      rw [flushLoop]
      dsimp only
      generalize htake : min (min (min (s.g.cout.length - sent) SSH_CHAN_CHUNK) s.c.peerWindow)
        s.c.peerMaxpkt = take
      split
      · exact h
      next hpos =>
        split
        · exact h
        next hroom =>
          have hlen : ((s.g.cout.drop sent).take take).length = take := by
            rw [List.length_take, List.length_drop]
            omega
          have hchunk : s.Chunk ((s.g.cout.drop sent).take take) := by
            constructor <;> rw [hlen] <;> omega
          split
          next herr => exact hfailed s _ h hchunk herr
          next hok =>
            have hnext := hsent s _ _ h hchunk rfl hok
            rw [hlen] at hnext
            exact flushLoop_keeps hfailed hsent fuel (sent + take) hnext

/-- `ssh_channel_flush` drops staged bytes, and on an open channel runs its loop before. -/
theorem sshChannelFlush_cases (env : SshEnv) (s : Ssh) :
    (sshChannelFlush env s).c = s.c ∨ s.c.chanOpen = true ∧ s.c.chanClosed = false ∧
      (sshChannelFlush env s).c = (flushLoop env s.g.cout.length 0 s).2.c := by
  unfold sshChannelFlush
  split
  · exact .inl rfl
  next h =>
    rw [Bool.or_eq_true, not_or, Bool.not_eq_true, Bool.not_eq_true, Bool.not_eq_false'] at h
    exact .inr ⟨h.1, h.2, rfl⟩

/-- `ssh_channel_emit` does nothing, or seals a packet that the windows allow. -/
theorem sshChannelEmit_cases (env : SshEnv) (s : Ssh) (plain : List UInt8) (outmax : Nat) :
    (sshChannelEmit env s plain outmax).2 = s ∨
    s.c.chanOpen = true ∧ s.c.chanClosed = false ∧ 0 < plain.length ∧
      plain.length ≤ SSH_CHAN_CHUNK ∧ plain.length ≤ s.c.peerWindow ∧
      plain.length ≤ s.c.peerMaxpkt ∧ ∃ bytes,
        (sshChannelEmit env s plain outmax).2.c = { s.c with
          peerWindow := s.c.peerWindow - plain.length
          sendSeq := s.c.sendSeq + 1
          trace := .frame true s.c.sendSeq (channelData s.c plain) bytes :: s.c.trace } := by
  generalize hr : sshChannelEmit env s plain outmax = r
  unfold sshChannelEmit at hr
  dsimp only at hr
  split at hr
  · subst hr
    exact .inl rfl
  next hready =>
    split at hr
    · subst hr
      exact .inl rfl
    next hn =>
      split at hr
      · subst hr
        exact .inl rfl
      next hw =>
        split at hr
        · subst hr
          exact .inl rfl
        · subst hr
          rw [Bool.or_eq_true, not_or, Bool.not_eq_true, Bool.not_eq_true, Bool.not_eq_false',
            sshChannelReady, Bool.and_eq_true, Bool.and_eq_true, Bool.not_eq_true'] at hready
          rw [not_or, Nat.not_lt] at hn hw
          exact .inr ⟨hready.1.1.1, hready.1.2, Nat.pos_of_ne_zero hn.1, hn.2, hw.1,
            Nat.not_lt.mp hw.2, _, rfl⟩

/-- Nothing is said on the channel of a fresh connection. -/
theorem sshReset_off (env : SshEnv) (g : SshShared) :
    ∃ s₀ : Ssh, s₀.c = SshConn.zero ∧ s₀.OffChannel (sshReset env g) := by
  unfold sshReset
  dsimp only
  have hline : (ascii SERVER_ID_CRLF).length ≤ SSH_OB_SZ := by decide
  generalize ascii SERVER_ID_CRLF = line at hline ⊢
  rw [obAppend_fits env _ line (by simpa [Ssh.note] using hline)]
  generalize hiS : ourKexinit _ = iS
  have htype : channelType iS = [] := by
    rw [← hiS]
    rfl
  generalize hs₁ : Ssh.mk _ (SshShared.mk _ _ _ _ _ _ _) _ = s₁
  have h₁ : Ssh.OffChannel ⟨SshConn.zero, g, []⟩ s₁ := by
    rw [← hs₁]
    exact ⟨rfl, [.ident line], rfl, by simp [SshEvent.offChannel, SshEvent.inner, SshEvent.said]⟩
  have hplain : s₁.c.sendEncrypted = false := by
    rw [← hs₁]
    rfl
  have hsend := OffChannel.send env s₁ htype
  rw [sendPacket, hplain, if_neg (by decide)] at hsend
  exact ⟨_, rfl, h₁.trans hsend⟩

end

/-- A request for a shell that wants a reply. -/
def shellRequest : List UInt8 := [MSG_CHANNEL_REQUEST] ++ be32 0 ++ putNl "shell" ++ [1]

/-- A request to open the session channel with this window. -/
def sessionOpen (window : Nat) : List UInt8 :=
  [MSG_CHANNEL_OPEN] ++ putNl "session" ++ be32 0 ++ be32 window ++ be32 1000

end Dossh
