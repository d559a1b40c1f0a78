import Dossh.Ssh.Acts

/-!
# The state of the transport

From `EXPECT_SERVICE_REQUEST` on both directions are encrypted under keys that no longer
change, and whatever needs an authenticated client finds one.  `TransportInv` is the invariant
of a connection, and `SshConn.Grows` what every call keeps of the connection before it.
-/

namespace Dossh

open Ssh

/-! ## Sending -/

/-- What sending a packet does to a connection: it frames, or it fails. -/
structure Ssh.Sends (s s' : Ssh) : Prop where
  conn : s'.c = { s.c with
    state := s'.c.state, err := s'.c.err, errMsg := s'.c.errMsg, sendSeq := s'.c.sendSeq
    trace := s'.c.trace }
  settles : (s'.c.state = s.c.state ∧ s'.c.err = s.c.err) ∨
    (s'.c.state = .error ∧ s'.c.err = true)
  logs : ∃ es, s'.c.trace = es ++ s.c.trace ∧
    ∀ e ∈ es, ∃ seq payload bytes, e = .frame s.c.sendEncrypted seq payload bytes

namespace Ssh.Sends

variable {env : SshEnv} {s s' s'' : Ssh}

theorem of_conn (h : s'.c = s.c) : s.Sends s' :=
  ⟨by rw [h], .inl (by rw [h]; exact ⟨rfl, rfl⟩), [], by rw [h]; rfl, by simp⟩

theorem refl (s : Ssh) : s.Sends s := .of_conn rfl

theorem trans (h : s.Sends s') (h' : s'.Sends s'') : s.Sends s'' := by
  have henc : s'.c.sendEncrypted = s.c.sendEncrypted := by
    have := congrArg SshConn.sendEncrypted h.conn
    exact this
  refine ⟨?_, ?_, ?_⟩
  · have h₁ := h.conn
    have h₂ := h'.conn
    rw [h₁] at h₂
    exact h₂
  · rcases h'.settles with ⟨h1, h2⟩ | h1
    · rcases h.settles with ⟨h3, h4⟩ | ⟨h3, h4⟩
      · exact .inl ⟨h1.trans h3, h2.trans h4⟩
      · exact .inr ⟨h1.trans h3, h2.trans h4⟩
    · exact .inr h1
  · obtain ⟨es, htr, hes⟩ := h.logs
    obtain ⟨es', htr', hes'⟩ := h'.logs
    refine ⟨es' ++ es, by rw [htr', htr, List.append_assoc], fun e he => ?_⟩
    rcases List.mem_append.mp he with he' | he'
    · rw [← henc]
      exact hes' e he'
    · exact hes e he'

theorem fail (s : Ssh) (why : String) : s.Sends (s.fail why) := by
  unfold Ssh.fail
  split
  · exact ⟨rfl, .inr ⟨rfl, rfl⟩, [], rfl, by simp⟩
  · exact .refl s

theorem obAppend (env : SshEnv) (s : Ssh) (d : List UInt8) : s.Sends (s.obAppend env d) := by
  unfold Ssh.obAppend
  split
  · exact (fail s _).trans (.of_conn rfl)
  · exact .of_conn rfl

theorem framed {encrypted : Bool} (henc : s.c.sendEncrypted = encrypted)
    (payload bytes : List UInt8) : s.Sends (s.framed encrypted payload bytes) :=
  ⟨rfl, .inl ⟨rfl, rfl⟩, [.frame encrypted s.c.sendSeq payload bytes], rfl, by simp [henc]⟩

theorem sendEncrypted (h : s.Sends s') : s'.c.sendEncrypted = s.c.sendEncrypted := by
  have hc := congrArg SshConn.sendEncrypted h.conn
  exact hc

theorem before (h' : s'.Sends s'') (h : s.Sends s') : s.Sends s'' := h.trans h'

theorem rngSkip (s : Ssh) (n : Nat) : s.Sends (s.rngSkip n) := .of_conn rfl

theorem sendUnenc (env : SshEnv) (hplain : s.c.sendEncrypted = false) (payload : List UInt8) :
    s.Sends (s.sendUnenc env payload) := by
  unfold Ssh.sendUnenc
  dsimp only
  generalize hs₁ : Ssh.obAppend env (Ssh.rngSkip _ _) _ = s₁
  have h₁ : s.Sends s₁ := by
    rw [← hs₁]
    exact (obAppend env _ _).before ((rngSkip _ _).before
      ((obAppend env _ _).before (.obAppend env s _)))
  exact h₁.trans (.framed (h₁.sendEncrypted.trans hplain) _ _)

theorem aeadSeal (env : SshEnv) (hsealed : s.c.sendEncrypted = true) (payload : List UInt8) :
    s.Sends (s.aeadSeal env payload).2 := by
  unfold Ssh.aeadSeal
  dsimp only
  generalize hs₁ : s.rngSkip _ = s₁
  have h₁ : s.Sends s₁ := by
    rw [← hs₁]
    exact .rngSkip s _
  exact h₁.trans (.framed (h₁.sendEncrypted.trans hsealed) _ _)

theorem sendPacket (env : SshEnv) (s : Ssh) (payload : List UInt8) :
    s.Sends (s.sendPacket env payload) := by
  unfold Ssh.sendPacket
  split
  next hsealed =>
    unfold Ssh.sendEnc
    split
    · exact fail s _
    · exact (aeadSeal env hsealed payload).trans (.obAppend env _ _)
  next hplain => exact sendUnenc env (by simpa using hplain) payload

end Ssh.Sends

/-! ## The invariant -/

/-- The fields the invariant is about. -/
abbrev SshConn.security (c : SshConn) : SshState × Bool × Bool × Bool × Bool × Bool × Bool ×
    Bool × Bool :=
  (c.state, c.recvEncrypted, c.sendEncrypted, c.keysReady, c.haveSessionId, c.authenticated,
    c.chanOpen, c.shellReady, c.chanSentClose)

/-- The states before the keys. -/
def SshState.keyless : SshState → Bool
  | .version | .expectKexinit | .expectEcdhInit => true
  | _ => false

/-- The invariant of the transport. -/
structure TransportInv (c : SshConn) : Prop where
  late : c.state.late = true → c.recvEncrypted = true ∧ c.sendEncrypted = true ∧
    c.keysReady = true ∧ c.haveSessionId = true
  newkeys : c.state = .expectClientNewkeys → c.sendEncrypted = true ∧ c.keysReady = true ∧
    c.haveSessionId = true
  keyless : c.state.keyless = true → c.keysReady = false ∧ c.sendEncrypted = false
  session : c.state = .session → c.authenticated = true
  authenticated : c.authenticated = true → c.recvEncrypted = true
  channel : (c.chanOpen = true ∨ c.shellReady = true ∨ c.chanSentClose = true) →
    c.authenticated = true

namespace TransportInv

variable {env : SshEnv} {W : Prop}

theorem congr {c c' : SshConn} (h : TransportInv c) (hsec : c'.security = c.security) :
    TransportInv c' := by
  simp only [SshConn.security, Prod.mk.injEq] at hsec
  obtain ⟨hst, hrecv, hsend, hready, hsid, hauth, hopen, hshell, hclose⟩ := hsec
  constructor
  · rw [hst, hrecv, hsend, hready, hsid]
    exact h.late
  · rw [hst, hsend, hready, hsid]
    exact h.newkeys
  · rw [hst, hready, hsend]
    exact h.keyless
  · rw [hst, hauth]
    exact h.session
  · rw [hauth, hrecv]
    exact h.authenticated
  · rw [hopen, hshell, hclose, hauth]
    exact h.channel

/-- A connection that ends keeps the rest. -/
theorem ends {c : SshConn} (h : TransportInv c) {st : SshState}
    (hst : st = .error ∨ st = .closed) : TransportInv { c with state := st } := by
  refine ⟨?_, ?_, ?_, ?_, h.authenticated, h.channel⟩
  all_goals
    rcases hst with rfl | rfl
    all_goals exact nofun

theorem sends {s s' : Ssh} (h : TransportInv s.c) (hs : s.Sends s') : TransportInv s'.c := by
  rw [hs.conn]
  rcases hs.settles with ⟨hst, -⟩ | ⟨hst, -⟩
  · exact h.congr (by rw [hst])
  · exact (h.ends (.inl hst)).congr rfl

theorem quiet {s s' : Ssh} (h : TransportInv s.c) (hq : s.Quiet s') : TransportInv s'.c := by
  rw [hq.conn.eq]
  exact h.congr rfl

theorem act {s s' : Ssh} (h : TransportInv s.c) (ha : s.Act env W s') : TransportInv s'.c := by
  cases ha with
  | quiet hq => exact h.quiet hq
  | fail why => exact h.sends (.fail s why)
  | send payload => exact h.sends (.sendPacket env s payload)
  | cout staged => exact h
  | key b hst => exact h.congr rfl
  | channel c' hc hopen =>
      have hauth : s.c.authenticated = true := by
        rcases hopen with hst | ho
        · exact h.session hst
        · exact h.channel (.inl ho)
      rw [hc.eq]
      exact ⟨h.late, h.newkeys, h.keyless, h.session, h.authenticated, fun _ => hauth⟩
  | winsize cols rows hW hst => exact h.congr rfl

theorem acts {s s' : Ssh} (h : TransportInv s.c) (ha : s.Acts env W s') : TransportInv s'.c :=
  Ssh.Acts.preserves (P := fun s => TransportInv s.c) (fun _ _ h ha => h.act ha) ha h

end TransportInv

/-! ## The key exchange -/

/-- The transcript with the values of the exchange. -/
def exchangeHctx (env : SshEnv) (c : SshConn) (qC qS raw : List UInt8) : List UInt8 :=
  c.hctx ++ putStr (buildKsBlob env) ++ putStr qC ++ putStr qS ++ buildKmpint raw

/-- The session id after an exchange with hash `h`. -/
def exchangeSessionId (c : SshConn) (h : List UInt8) : List UInt8 :=
  if c.haveSessionId then c.sessionId else h

/-- What `handle_ecdh_init` leaves behind: the hash, the session id and the keys. -/
theorem ecdhReply_conn (env : SshEnv) (s : Ssh) (qC qS raw : List UInt8) :
    ∃ s' : Ssh, ecdhReply env s qC qS raw = s' ∧
      s'.c = { s.c with
        state := .expectClientNewkeys, err := s'.c.err, errMsg := s'.c.errMsg
        hctx := exchangeHctx env s.c qC qS raw
        sessionId := exchangeSessionId s.c (env.crypto.sha256 (exchangeHctx env s.c qC qS raw))
        haveSessionId := true
        ekC2s := deriveKey env.crypto (buildKmpint raw)
          (env.crypto.sha256 (exchangeHctx env s.c qC qS raw))
          (exchangeSessionId s.c (env.crypto.sha256 (exchangeHctx env s.c qC qS raw))) 0x43 64
        ekS2c := deriveKey env.crypto (buildKmpint raw)
          (env.crypto.sha256 (exchangeHctx env s.c qC qS raw))
          (exchangeSessionId s.c (env.crypto.sha256 (exchangeHctx env s.c qC qS raw))) 0x44 64
        keysReady := true, sendEncrypted := true, sendSeq := s'.c.sendSeq
        trace := s'.c.trace } ∧
      ∃ es, s'.c.trace = es ++ s.c.trace ∧
        ∀ e ∈ es, ∃ seq payload bytes, e = .frame s.c.sendEncrypted seq payload bytes := by
  refine ⟨_, rfl, ?_⟩
  unfold ecdhReply exchangeHctx exchangeSessionId
  dsimp only
  generalize s.c.hctx ++ putStr (buildKsBlob env) ++ putStr qC ++ putStr qS ++ buildKmpint raw
    = hctx
  generalize env.crypto.sha256 hctx = h
  generalize buildKmpint raw = k
  generalize (if s.c.haveSessionId = true then s.c.sessionId else h) = sid
  generalize [MSG_KEX_ECDH_REPLY] ++ putStr (buildKsBlob env) ++ putStr qS ++
    putStr (putNl "ssh-ed25519" ++ putStr (env.crypto.ed25519Sign env.hostkeySk h)) = reply
  -- the reply, then the keys, then `NEWKEYS`
  have h₂ := Sends.sendPacket env { s with
    g := { s.g with kmpint := k, hash := h }
    c := { s.c with hctx := hctx, sessionId := sid, haveSessionId := true } } reply
  generalize Ssh.sendPacket env _ reply = s₂ at h₂ ⊢
  have hsid : s₂.c.sessionId = sid := by
    have hc := congrArg SshConn.sessionId h₂.conn
    exact hc
  generalize hekC : deriveKey env.crypto k h s₂.c.sessionId 67 64 = ekC
  generalize hekS : deriveKey env.crypto k h s₂.c.sessionId 68 64 = ekS
  rw [hsid] at hekC hekS
  rw [hekC, hekS]
  have h₄ := Sends.sendPacket env { s₂ with
    c := { s₂.c with ekC2s := ekC, ekS2c := ekS, keysReady := true } } [MSG_NEWKEYS]
  generalize Ssh.sendPacket env _ [MSG_NEWKEYS] = s₄ at h₄ ⊢
  have hc₂ := h₂.conn
  have hc₄ := h₄.conn
  obtain ⟨es₂, htr₂, hes₂⟩ := h₂.logs
  obtain ⟨es₄, htr₄, hes₄⟩ := h₄.logs
  have henc : s₂.c.sendEncrypted = s.c.sendEncrypted := by
    have hc := congrArg SshConn.sendEncrypted hc₂
    exact hc
  refine ⟨?_, es₄ ++ es₂, ?_, ?_⟩
  · rw [hc₂] at hc₄
    rw [hc₄]
  · exact htr₄.trans (by rw [List.append_assoc]; exact congrArg (es₄ ++ ·) htr₂)
  · intro e he
    rcases List.mem_append.mp he with he' | he'
    · rw [← henc]
      exact hes₄ e he'
    · exact hes₂ e he'

/-! ## What is never taken back -/

/-- The keys and the session id. -/
abbrev SshConn.secrets (c : SshConn) : List UInt8 × List UInt8 × List UInt8 :=
  (c.sessionId, c.ekC2s, c.ekS2c)

/-- A packet that was queued unencrypted. -/
def SshEvent.plainFrame : SshEvent → Bool
  | .frame false _ _ _ => true
  | _ => false

/-- The keys stay once they are there, encryption is not switched off, and from then on nothing
is queued unencrypted. -/
structure SshConn.Grows (c c' : SshConn) : Prop where
  keys : c.keysReady = true → c'.keysReady = true ∧ c'.secrets = c.secrets
  recv : c.recvEncrypted = true → c'.recvEncrypted = true
  send : c.sendEncrypted = true → c'.sendEncrypted = true
  frames : ∃ es, c'.trace = es ++ c.trace ∧
    (c.sendEncrypted = true → ∀ e ∈ es, e.plainFrame = false)

theorem SshConn.Grows.trans {c c' c'' : SshConn} (h : c.Grows c') (h' : c'.Grows c'') :
    c.Grows c'' := by
  refine ⟨fun hk => ?_, fun hr => h'.recv (h.recv hr), fun hs => h'.send (h.send hs), ?_⟩
  · obtain ⟨hk', hsec⟩ := h.keys hk
    obtain ⟨hk'', hsec'⟩ := h'.keys hk'
    exact ⟨hk'', hsec'.trans hsec⟩
  · obtain ⟨es, htr, hes⟩ := h.frames
    obtain ⟨es', htr', hes'⟩ := h'.frames
    refine ⟨es' ++ es, by rw [htr', htr, List.append_assoc], fun hs e he => ?_⟩
    rcases List.mem_append.mp he with he' | he'
    · exact hes' (h.send hs) e he'
    · exact hes hs e he'

/-- A call that keeps the flags, the keys and the history. -/
theorem SshConn.Grows.of_eq {c c' : SshConn} (hready : c'.keysReady = c.keysReady)
    (hsec : c'.secrets = c.secrets) (hrecv : c.recvEncrypted = true → c'.recvEncrypted = true)
    (hsend : c'.sendEncrypted = c.sendEncrypted) (htr : c'.trace = c.trace) : c.Grows c' :=
  ⟨fun hk => ⟨by rw [hready, hk], hsec⟩, hrecv, fun hs => by rw [hsend, hs], [], htr, by simp⟩

theorem SshConn.Grows.refl (c : SshConn) : c.Grows c := .of_eq rfl rfl id rfl rfl

namespace SshConn.Grows

variable {env : SshEnv} {W : Prop} {s s' : Ssh}

theorem quiet (h : s.Quiet s') : s.c.Grows s'.c := by
  have hc := h.conn.eq
  refine of_eq ?_ ?_ ?_ ?_ ?_
  all_goals rw [hc]
  exact id

theorem sends (h : s.Sends s') : s.c.Grows s'.c := by
  have hc := h.conn
  refine ⟨fun hk => ?_, ?_, ?_, ?_⟩
  · rw [hc]
    exact ⟨hk, rfl⟩
  · rw [hc]
    exact id
  · rw [hc]
    exact id
  · obtain ⟨es, htr, hes⟩ := h.logs
    refine ⟨es, htr, fun hs e he => ?_⟩
    obtain ⟨seq, payload, bytes, rfl⟩ := hes e he
    rw [hs]
    rfl

theorem act (h : s.Act env W s') : s.c.Grows s'.c := by
  cases h with
  | quiet h => exact .quiet h
  | fail why => exact .sends (.fail s why)
  | send payload => exact .sends (.sendPacket env s payload)
  | cout staged => exact .of_eq rfl rfl id rfl rfl
  | key b hst => exact ⟨fun hk => ⟨hk, rfl⟩, id, id, [.key b], rfl, by simp [SshEvent.plainFrame]⟩
  | channel c' h hopen =>
      have hc := h.eq
      refine of_eq ?_ ?_ ?_ ?_ ?_
      all_goals
        dsimp only
        rw [hc]
      exact id
  | winsize cols rows hW hst => exact .of_eq rfl rfl id rfl rfl

theorem acts (h : s.Acts env W s') : s.c.Grows s'.c :=
  Ssh.Acts.lift (R := fun s s' => s.c.Grows s'.c) (fun s => refl s.c) (fun _ _ _ => trans)
    (fun _ _ => act) h

theorem setState (s : Ssh) (st : SshState) : s.c.Grows { s.c with state := st } :=
  .of_eq rfl rfl id rfl rfl

end SshConn.Grows

/-! ## Packets -/

theorem Deed.grows {env : SshEnv} {W : Prop} {pl : Payload} {s s' : Ssh} (h : TransportInv s.c)
    (hd : Deed env W pl s s') : s.c.Grows s'.c := by
  cases hd with
  | acts ha => exact .acts ha
  | disconnect s₁ hq hs' =>
      rw [hs']
      exact (SshConn.Grows.quiet hq).trans (.setState s₁ _)
  | kexinit hst s₁ hq hmsg hneg hs' =>
      rw [hs']
      have hq' := hq.trans (negotiate_quiet env s₁ pl)
      generalize (negotiate env s₁ pl).2 = s₂ at *
      exact (SshConn.Grows.quiet hq').trans (.of_eq rfl rfl id rfl rfl)
  | ecdh hst s₁ hq hmsg hlen hqc raw hraw hgood hs' =>
      obtain ⟨s₂, heq, hc, es, htr, hes⟩ := ecdhReply_conn env s₁ (pl.sub 5 32).bytes
        (env.crypto.x25519PublicKey (env.rngBytes s.g.rngPos 32)) raw
      rw [← hs'] at heq
      subst heq
      -- there were no keys before
      have hno := h.keyless (by rw [hst]; rfl)
      refine (SshConn.Grows.quiet hq).trans ⟨fun hk => ?_, ?_, ?_, es, htr, fun hs => ?_⟩
      · have hk' := congrArg SshConn.keysReady hq.conn.eq
        rw [hk] at hk'
        exact absurd (hk'.trans hno.1) (by decide)
      · rw [hc]
        exact id
      · rw [hc]
        exact fun _ => rfl
      · have hs'' := congrArg SshConn.sendEncrypted hq.conn.eq
        rw [hs] at hs''
        exact absurd (hs''.trans hno.2) (by decide)
  | newkeys hst hg hc =>
      refine .of_eq ?_ ?_ ?_ ?_ ?_
      all_goals rw [hc]
      exact fun _ => rfl
  | service hst s₁ hq name hname hs' =>
      rw [hs']
      have hs := Sends.sendPacket env s₁ ([MSG_SERVICE_ACCEPT] ++ putStr name)
      generalize s₁.sendPacket env ([MSG_SERVICE_ACCEPT] ++ putStr name) = s₂ at *
      exact ((SshConn.Grows.quiet hq).trans (.sends hs)).trans (.setState s₂ _)
  | rejected hst s₁ hq hs' =>
      rw [hs', sendDisconnect]
      exact ((SshConn.Grows.quiet hq).trans (.sends (.sendPacket env s₁ _))).trans (.setState _ _)
  | granted hst s₁ hq hs' =>
      rw [hs', sendUserauthSuccess]
      have hs := Sends.sendPacket env s₁ [MSG_USERAUTH_SUCCESS]
      generalize s₁.sendPacket env [MSG_USERAUTH_SUCCESS] = s₂ at *
      exact ((SshConn.Grows.quiet hq).trans (.sends hs)).trans (.of_eq rfl rfl id rfl rfl)
  | closed hst s₁ hq s₂ hs₂ hs' =>
      have hclose : s₁.c.Grows s₂.c := by
        rw [hs₂]
        split
        · exact .acts (W := W) (sshChannelClose_acts env s₁)
        · exact .refl s₁.c
      rw [hs']
      exact ((SshConn.Grows.quiet hq).trans hclose).trans (.of_eq rfl rfl id rfl rfl)

/-- A handler that sends and then assigns a late state finds the flags as they were, even if
sending failed. -/
theorem TransportInv.flags_after {s s₁ s₂ : Ssh} (h : TransportInv s.c)
    (hlate : s.c.state.late = true) (hq : s.Quiet s₁) (hs : s₁.Sends s₂) :
    s₂.c.recvEncrypted = true ∧ s₂.c.sendEncrypted = true ∧ s₂.c.keysReady = true ∧
      s₂.c.haveSessionId = true := by
  rw [hs.conn]
  dsimp only
  rw [hq.conn.eq]
  exact h.late hlate

/-- Every packet keeps the invariant. -/
theorem Deed.transportInv {env : SshEnv} {W : Prop} {pl : Payload} {s s' : Ssh}
    (h : TransportInv s.c) (hd : Deed env W pl s s') : TransportInv s'.c := by
  cases hd with
  | acts ha => exact h.acts ha
  | disconnect s₁ hq hs' =>
      rw [hs']
      exact (h.quiet hq).ends (.inr rfl)
  | kexinit hst s₁ hq hmsg hneg hs' =>
      have hq' := hq.trans (negotiate_quiet env s₁ pl)
      rw [hs']
      generalize (negotiate env s₁ pl).2 = s₂ at *
      have h₂ := h.quiet hq'
      refine ⟨nofun, nofun, fun _ => h₂.keyless ?_, nofun, h₂.authenticated, h₂.channel⟩
      rw [hq'.state, hst]
      rfl
  | ecdh hst s₁ hq hmsg hlen hqc raw hraw hgood hs' =>
      obtain ⟨s₂, heq, hc, -⟩ := ecdhReply_conn env s₁ (pl.sub 5 32).bytes
        (env.crypto.x25519PublicKey (env.rngBytes s.g.rngPos 32)) raw
      rw [← hs'] at heq
      subst heq
      have h₁ := h.quiet hq
      rw [hc]
      exact ⟨nofun, fun _ => ⟨rfl, rfl, rfl⟩, nofun, nofun, h₁.authenticated, h₁.channel⟩
  | newkeys hst hg hc =>
      obtain ⟨hsend, hready, hsid⟩ := h.newkeys hst
      rw [hc]
      exact ⟨fun _ => ⟨rfl, hsend, hready, hsid⟩, nofun, nofun, nofun, fun _ => rfl, h.channel⟩
  | service hst s₁ hq name hname hs' =>
      have hs := Sends.sendPacket env s₁ ([MSG_SERVICE_ACCEPT] ++ putStr name)
      have h₂ := (h.quiet hq).sends hs
      have hf := h.flags_after (by rw [hst]; rfl) hq hs
      rw [hs']
      generalize s₁.sendPacket env ([MSG_SERVICE_ACCEPT] ++ putStr name) = s₂ at *
      exact ⟨fun _ => hf, nofun, nofun, nofun, h₂.authenticated, h₂.channel⟩
  | rejected hst s₁ hq hs' =>
      rw [hs', sendDisconnect]
      exact ((h.quiet hq).sends (.sendPacket env s₁ _)).ends (.inr rfl)
  | granted hst s₁ hq hs' =>
      have hs := Sends.sendPacket env s₁ [MSG_USERAUTH_SUCCESS]
      have h₂ := (h.quiet hq).sends hs
      have hf := h.flags_after (by rw [hst]; rfl) hq hs
      rw [hs', sendUserauthSuccess]
      generalize s₁.sendPacket env [MSG_USERAUTH_SUCCESS] = s₂ at *
      exact ⟨fun _ => hf, nofun, nofun, fun _ => rfl, fun _ => hf.1, fun _ => rfl⟩
  | closed hst s₁ hq s₂ hs₂ hs' =>
      have hclose : TransportInv s₂.c := by
        rw [hs₂]
        split
        · exact (h.quiet hq).acts (W := W) (sshChannelClose_acts env s₁)
        · exact h.quiet hq
      rw [hs']
      exact (hclose.ends (.inr rfl)).congr rfl

/-! ## Turns and runs -/

/-- `handle_packet`, as called by the decoder. -/
theorem dispatch_deed (env : SshEnv) (W : Prop) (s : Ssh) (wire : List UInt8)
    (mem : Nat → UInt8) (n : Nat)
    (hW : Payload.msg ⟨mem, 0, n⟩ = MSG_CHANNEL_REQUEST →
      resizes ((⟨mem, 0, n⟩ : Payload).sub 9 (env.u (Payload.u32 ⟨mem, 0, n⟩ 5))).bytes → W) :
    Deed env W ⟨mem, 0, n⟩ (s.note (s.packetEvent wire (slice mem 0 n)))
      (s.dispatch env wire mem n) :=
  (handlePacket_deed env { s.note (s.packetEvent wire (slice mem 0 n)) with reads := [] }
    ⟨mem, 0, n⟩ hW).of_eq rfl rfl

/-- Every turn of the input loop keeps the invariant. -/
theorem Turn.transportInv {env : SshEnv} {s s' : Ssh} {r : TryRes} (h : TransportInv s.c)
    (ht : Turn env s r s') : TransportInv s'.c ∧ s.c.Grows s'.c := by
  have hnote : ∀ (s : Ssh) (wire payload : List UInt8),
      s.c.Grows (s.note (s.packetEvent wire payload)).c := fun s wire payload =>
    ⟨fun hk => ⟨hk, rfl⟩, id, id, [s.packetEvent wire payload], rfl,
      by simp [SshEvent.plainFrame, packetEvent]⟩
  have hfinish : ∀ (s : Ssh) (need : Nat), s.c.Grows (s.finish need).c := fun s need =>
    .of_eq rfl rfl id rfl rfl
  have hopened : s.c.Grows (s.c.opened env) := .of_eq rfl rfl id rfl rfl
  have hdispatch : ∀ s : Ssh, TransportInv s.c → ∀ wire mem n need,
      TransportInv ((s.dispatch env wire mem n).finish need).c ∧
        s.c.Grows ((s.dispatch env wire mem n).finish need).c := by
    intro s h wire mem n need
    have hd := dispatch_deed env True s wire mem n fun _ _ => trivial
    have hn : TransportInv (s.note (s.packetEvent wire (slice mem 0 n))).c := h.congr rfl
    generalize s.dispatch env wire mem n = s₁ at hd ⊢
    exact ⟨(hd.transportInv hn).congr rfl,
      (hnote s _ _).trans ((hd.grows hn).trans (hfinish s₁ need))⟩
  cases ht with
  | waits => exact ⟨h, .refl s.c⟩
  | wild => exact ⟨h, .refl s.c⟩
  | fails s₁ hs₁ why =>
      rcases hs₁ with rfl | rfl
      · exact ⟨h.sends (.fail _ why), .sends (.fail _ why)⟩
      · have h₁ : TransportInv ({ s with c := s.c.opened env } : Ssh).c := h.congr rfl
        exact ⟨h₁.sends (.fail _ why),
          hopened.trans (SshConn.Grows.sends (.fail { s with c := s.c.opened env } why))⟩
  | banner hst k hk => exact ⟨h.congr rfl, .of_eq rfl rfl id rfl rfl⟩
  | version hst k hk line =>
      refine ⟨?_, .of_eq rfl rfl id rfl rfl⟩
      have hkl := h.keyless (by rw [hst]; rfl)
      exact ⟨nofun, nofun, fun _ => hkl, nofun, h.authenticated, h.channel⟩
  | plain hst henc mem beyond n hib hlen hneed => exact hdispatch s h _ _ _ _
  | opened hst henc hv beyond padlen hpad hle =>
      obtain ⟨h₁, hg⟩ := hdispatch { s with c := s.c.opened env } (h.congr rfl)
        (s.c.ib.take (4 + s.c.encLen env + 16)) (fun k => (s.c.opened env).mem beyond (5 + k))
        (s.c.encLen env - 1 - padlen) (4 + s.c.encLen env + 16)
      exact ⟨h₁, hopened.trans hg⟩

/-- `ssh_reset` sends on a connection that is otherwise fresh. -/
theorem sshReset_sends (env : SshEnv) (g : SshShared) :
    ∃ (s₀ : Ssh) (iS : List UInt8), s₀.c = { SshConn.fresh with iS := iS } ∧
      sshReset env g = s₀.sendUnenc env iS ∧ s₀.Sends (sshReset env g) := by
  unfold sshReset
  dsimp only
  have hob : ∀ s : Ssh, s.g.ob = [] → (s.obAppend env (ascii SERVER_ID_CRLF)).c = s.c := by
    intro s hs
    have hlen : env.u (s.g.ob.length + (ascii SERVER_ID_CRLF).length) = 19 := by
      rw [hs]
      exact env.u_small (by decide)
    rw [Ssh.obAppend, hlen, if_neg (by decide)]
  have hc := hob (Ssh.note ⟨SshConn.zero, { g with ob := [], cin := [], cout := [] }, []⟩
    (.ident (ascii SERVER_ID_CRLF))) rfl
  generalize Ssh.obAppend env _ (ascii SERVER_ID_CRLF) = s₁ at hc ⊢
  generalize ourKexinit (env.rngBytes s₁.g.rngPos 16) = iS
  refine ⟨{ s₁.rngSkip 16 with c := { s₁.c with iS := iS } }, iS, ?_, rfl, ?_⟩
  · rw [hc]
    rfl
  · refine Sends.sendUnenc env ?_ iS
    rw [hc]
    rfl

/-- A fresh connection has no keys. -/
theorem TransportInv.reset (env : SshEnv) (g : SshShared) : TransportInv (sshReset env g).c := by
  obtain ⟨s₀, iS, hc, -, hs⟩ := sshReset_sends env g
  refine TransportInv.sends (s := s₀) ?_ hs
  rw [hc]
  refine ⟨nofun, nofun, fun _ => ⟨rfl, rfl⟩, nofun, nofun, ?_⟩
  rintro (h | h | h)
  all_goals cases h

/-- Sealing channel data. -/
theorem sshChannelEmit_sends (env : SshEnv) (s : Ssh) (plain : List UInt8) (outmax : Nat) :
    ∃ s₁, s.Quiet s₁ ∧ s₁.Sends (sshChannelEmit env s plain outmax).2 := by
  unfold sshChannelEmit
  dsimp only
  split
  · exact ⟨s, .refl s, .refl s⟩
  next hready =>
    repeat' split
    · exact ⟨s, .refl s, .refl s⟩
    · exact ⟨s, .refl s, .refl s⟩
    · exact ⟨s, .refl s, .refl s⟩
    · have hsealed : s.c.sendEncrypted = true := by
        rw [Bool.or_eq_true, not_or] at hready
        simpa using hready.2
      exact ⟨{ s with c := { s.c with peerWindow := s.c.peerWindow - plain.length } },
        .conn_eq ⟨rfl⟩, .aeadSeal env (by exact hsealed) _⟩

/-- Along every run the invariant holds, and what was reached is never taken back. -/
theorem sshRun_transportInv {env : SshEnv} (ops : List SshOp) {s s' : Ssh}
    (h : TransportInv s.c) (hrun : sshRun env ops s = some s') :
    TransportInv s'.c ∧ s.c.Grows s'.c := by
  refine sshRun_keeps (P := fun c => TransportInv c ∧ s.c.Grows c) ?_ ?_ ?_ ?_ ops
    ⟨h, .refl s.c⟩ hrun
  · rintro c data ⟨hi, hg⟩
    exact ⟨hi.congr rfl, hg.trans (.of_eq rfl rfl id rfl rfl)⟩
  · rintro s₁ r s₂ ⟨hi, hg⟩ - hturn
    obtain ⟨hi', hg'⟩ := hturn.transportInv hi
    exact ⟨hi', hg.trans hg'⟩
  · rintro s₁ s₂ ⟨hi, hg⟩ hacts
    exact ⟨hi.acts hacts, hg.trans (.acts hacts)⟩
  · rintro s₁ plain outmax ⟨hi, hg⟩
    obtain ⟨s₂, hq, hs⟩ := sshChannelEmit_sends env s₁ plain outmax
    exact ⟨(hi.quiet hq).sends hs, hg.trans ((SshConn.Grows.quiet hq).trans (.sends hs))⟩

theorem SshReach.transportInv {env : SshEnv} {s : Ssh} (h : SshReach env s) :
    TransportInv s.c := by
  obtain ⟨g, ops, hrun⟩ := h
  exact (sshRun_transportInv ops (.reset env g) hrun).1

/-- In every reachable state the flags agree with the state of the connection; and along every
run from there the keys and the session id stay, encryption stays on in each direction, and
nothing is queued unencrypted once the server encrypts. -/
theorem transport_state_invariant {env : SshEnv} {s : Ssh} (hreach : SshReach env s) :
    ((s.c.state = .expectServiceRequest ∨ s.c.state = .auth ∨ s.c.state = .session) →
      s.c.recvEncrypted = true ∧ s.c.sendEncrypted = true ∧ s.c.keysReady = true ∧
        s.c.haveSessionId = true) ∧
    (s.c.authenticated = true → s.c.recvEncrypted = true) ∧
    ((s.c.chanOpen = true ∨ s.c.shellReady = true ∨ s.c.chanSentClose = true) →
      s.c.authenticated = true) ∧
    ∀ ops s', sshRun env ops s = some s' →
      (s.c.keysReady = true → s'.c.keysReady = true ∧ s'.c.sessionId = s.c.sessionId ∧
        s'.c.ekC2s = s.c.ekC2s ∧ s'.c.ekS2c = s.c.ekS2c) ∧
      (s.c.recvEncrypted = true → s'.c.recvEncrypted = true) ∧
      (s.c.sendEncrypted = true → s'.c.sendEncrypted = true ∧
        ∃ es, s'.c.trace = es ++ s.c.trace ∧
          ∀ seq payload bytes, SshEvent.frame false seq payload bytes ∉ es) := by
  have h := hreach.transportInv
  refine ⟨fun hst => h.late ?_, h.authenticated, h.channel, fun ops s' hrun => ?_⟩
  · rcases hst with hst | hst | hst
    all_goals
      rw [hst]
      rfl
  · have hg := (sshRun_transportInv ops h hrun).2
    refine ⟨fun hk => ?_, hg.recv, fun hs => ⟨hg.send hs, ?_⟩⟩
    · obtain ⟨hk', hsec⟩ := hg.keys hk
      simp only [SshConn.secrets, Prod.mk.injEq] at hsec
      exact ⟨hk', hsec⟩
    · obtain ⟨es, htr, hes⟩ := hg.frames
      refine ⟨es, htr, fun seq payload bytes hmem => ?_⟩
      exact absurd (hes hs _ hmem) (by simp [SshEvent.plainFrame])

theorem transport_state_invariant_login :
    ∃ s, SshReach sampleEnv s ∧ s.c.state = .session ∧ s.c.recvEncrypted = true ∧
      s.c.sendEncrypted = true := by
  obtain ⟨s, hreach, hst, -⟩ := login_run
  have h := (transport_state_invariant hreach).1 (.inr (.inr hst))
  exact ⟨s, hreach, hst, h.1, h.2.1⟩

end Dossh
