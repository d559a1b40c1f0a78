import Dossh.Ssh.Shell

/-!
# A connection among others

A server for several clients calls `ssh.c` on one connection after the other.  To each connection
the calls on the others are changes of the shared part.  So what a connection can become beside
others it can become by calls on it between which the shared part changes arbitrarily
(`SshConn.Reached`).
-/

namespace Dossh

open Ssh

section

variable {env : SshEnv}

/-! ## What was read does not matter -/

theorem fail_reads (s : Ssh) (r : List (Nat × Nat)) (why : String) :
    ({ s with reads := r } : Ssh).fail why = { s.fail why with reads := r } := by
  unfold Ssh.fail
  dsimp only
  split <;> rfl

theorem obAppend_reads (s : Ssh) (r : List (Nat × Nat)) (d : List UInt8) :
    ({ s with reads := r } : Ssh).obAppend env d = { s.obAppend env d with reads := r } := by
  unfold Ssh.obAppend
  dsimp only
  split
  · rw [fail_reads]
  · rfl

theorem sendPacket_reads (s : Ssh) (r : List (Nat × Nat)) (payload : List UInt8) :
    ({ s with reads := r } : Ssh).sendPacket env payload =
      { s.sendPacket env payload with reads := r } := by
  unfold Ssh.sendPacket
  dsimp only
  split
  · unfold Ssh.sendEnc
    split
    · exact fail_reads s r _
    · exact obAppend_reads (s.aeadSeal env payload).2 r (s.aeadSeal env payload).1
  · unfold Ssh.sendUnenc
    dsimp only
    generalize be32 _ ++ [UInt8.ofNat _] = hdr
    rw [obAppend_reads s r hdr, obAppend_reads (s.obAppend env hdr) r payload]
    generalize (s.obAppend env hdr).obAppend env payload = s₁
    generalize env.rngBytes s.g.rngPos _ = pad
    exact congrArg (Ssh.framed · false payload (hdr ++ payload ++ pad))
      (obAppend_reads (s₁.rngSkip (padLen (4 + 1 + payload.length))) r pad)

theorem flushLoop_reads : ∀ (fuel sent : Nat) (s : Ssh) (r : List (Nat × Nat)),
    flushLoop env fuel sent { s with reads := r } =
      ((flushLoop env fuel sent s).1, { (flushLoop env fuel sent s).2 with reads := r })
  | 0, _, _, _ => rfl
  | fuel + 1, sent, s, r => by
      rw [flushLoop, flushLoop]
      dsimp only
      generalize min (min (min (s.g.cout.length - sent) SSH_CHAN_CHUNK) s.c.peerWindow)
        s.c.peerMaxpkt = take
      generalize channelData s.c _ = pkt
      split
      · rfl
      · split
        · rfl
        · rw [sendPacket_reads s r pkt]
          generalize s.sendPacket env pkt = s₁
          dsimp only
          split
          · rfl
          · exact flushLoop_reads fuel (sent + take)
              { s₁ with c := { s₁.c with peerWindow := s₁.c.peerWindow - take } } r

theorem sshChannelFlush_reads (s : Ssh) (r : List (Nat × Nat)) :
    sshChannelFlush env { s with reads := r } = { sshChannelFlush env s with reads := r } := by
  unfold sshChannelFlush
  dsimp only
  rw [flushLoop_reads]
  split <;> rfl

theorem sshChannelClose_reads (s : Ssh) (r : List (Nat × Nat)) :
    sshChannelClose env { s with reads := r } = { sshChannelClose env s with reads := r } := by
  have hite : ∀ (b : Bool) (s₁ : Ssh) (f : Ssh → Ssh),
      (∀ s₁ : Ssh, f { s₁ with reads := r } = { f s₁ with reads := r }) →
      (if b then f { s₁ with reads := r } else { s₁ with reads := r }) =
        { (if b then f s₁ else s₁) with reads := r } := by
    intro b s₁ f hf
    cases b with
    | true => exact hf s₁
    | false => rfl
  unfold sshChannelClose
  dsimp only
  split
  · rfl
  · rw [sshChannelFlush_reads]
    generalize sshChannelFlush env s = s₁
    rw [hite s₁.c.shellReady s₁ (fun s₁ => s₁.sendPacket env ([MSG_CHANNEL_REQUEST] ++
      be32 s₁.c.peerChan ++ putNl "exit-status" ++ [0] ++ be32 0))
      fun s₁ => sendPacket_reads s₁ r _]
    generalize (if s₁.c.shellReady = true then _ else s₁) = s₂
    rw [hite (!s₂.c.chanSentEof) s₂ (fun s₂ =>
      { s₂.sendPacket env ([MSG_CHANNEL_EOF] ++ be32 s₂.c.peerChan) with
        c := { (s₂.sendPacket env ([MSG_CHANNEL_EOF] ++ be32 s₂.c.peerChan)).c with
          chanSentEof := true } })
      fun s₂ => by rw [sendPacket_reads s₂ r _]]
    generalize (if (!s₂.c.chanSentEof) = true then _ else s₂) = s₃
    rw [sendPacket_reads s₃ r _]

theorem sshChannelEmit_reads (s : Ssh) (r : List (Nat × Nat)) (plain : List UInt8)
    (outmax : Nat) : sshChannelEmit env { s with reads := r } plain outmax =
      ((sshChannelEmit env s plain outmax).1,
        { (sshChannelEmit env s plain outmax).2 with reads := r }) := by
  unfold sshChannelEmit
  dsimp only
  repeat' split
  all_goals rfl

/-- `handle_packet` starts to count its reads anew. -/
theorem dispatch_reads (s : Ssh) (r : List (Nat × Nat)) (wire : List UInt8) (mem : Nat → UInt8)
    (k : Nat) : ({ s with reads := r } : Ssh).dispatch env wire mem k = s.dispatch env wire mem k := by
  unfold Ssh.dispatch
  rfl

theorem tryVersion_reads (s : Ssh) (r : List (Nat × Nat)) :
    tryVersion { s with reads := r } =
      ((tryVersion s).1, { (tryVersion s).2 with reads := r }) := by
  unfold tryVersion
  dsimp only
  split
  · rfl
  · rw [fail_reads]
  · split <;> rfl

theorem finish_reads (s : Ssh) (need : Nat) :
    s.finish need = { s.finish need with reads := s.reads } := rfl

theorem tryPlain_reads (beyond : Nat → UInt8) (s : Ssh) (r : List (Nat × Nat)) :
    ∃ r', tryPlain env beyond { s with reads := r } =
      ((tryPlain env beyond s).1, { (tryPlain env beyond s).2 with reads := r' }) := by
  unfold tryPlain
  dsimp only
  split
  · exact ⟨r, rfl⟩
  split
  · exact ⟨r, by rw [fail_reads]⟩
  split
  · exact ⟨r, rfl⟩
  split
  · exact ⟨r, by rw [fail_reads]⟩
  · rw [dispatch_reads s r]
    generalize s.dispatch env _ _ _ = s₁
    exact ⟨s₁.reads, congrArg _ (finish_reads s₁ _)⟩

theorem tryEncrypted_reads (beyond : Nat → UInt8) (s : Ssh) (r : List (Nat × Nat)) :
    ∃ r', tryEncrypted env beyond { s with reads := r } =
      ((tryEncrypted env beyond s).1, { (tryEncrypted env beyond s).2 with reads := r' }) := by
  unfold tryEncrypted
  dsimp only
  split
  · exact ⟨r, rfl⟩
  split
  · exact ⟨r, by rw [fail_reads]⟩
  split
  · exact ⟨r, rfl⟩
  split
  · exact ⟨r, by rw [fail_reads]⟩
  split
  · exact ⟨r, rfl⟩
  split
  · exact ⟨r, by rw [fail_reads { s with c := s.c.opened env } r _]⟩
  · rw [dispatch_reads { s with c := s.c.opened env } r]
    generalize Ssh.dispatch env { s with c := s.c.opened env } _ _ _ = s₁
    exact ⟨s₁.reads, congrArg _ (finish_reads s₁ _)⟩

/-- A turn forgets what was read before, or keeps it. -/
theorem inputStep_reads (env : SshEnv) (beyond : Nat → UInt8) (s : Ssh) (r : List (Nat × Nat)) :
    ∃ r', inputStep env beyond { s with reads := r } =
      ((inputStep env beyond s).1, { (inputStep env beyond s).2 with reads := r' }) := by
  unfold inputStep
  by_cases hst : s.c.state = .version
  · rw [if_pos hst, if_pos hst]
    exact ⟨r, tryVersion_reads s r⟩
  · rw [if_neg hst, if_neg hst]
    unfold tryPacket
    cases henc : s.c.recvEncrypted with
    | true =>
        rw [if_pos rfl, if_pos rfl]
        exact tryEncrypted_reads beyond s r
    | false =>
        rw [if_neg Bool.false_ne_true, if_neg Bool.false_ne_true]
        exact tryPlain_reads beyond s r

/-- What `inputLoop` and the calls do to a connection does not depend on what was read. -/
theorem inputLoop_reads (beyond : Nat → Nat → UInt8) : ∀ (fuel t : Nat) (s s' : Ssh)
    (r : List (Nat × Nat)), (inputLoop env beyond fuel t s).state? = some s' →
      ∃ r', (inputLoop env beyond fuel t { s with reads := r }).state? =
        some { s' with reads := r' }
  | 0, t, s, s', r, h => by
      refine ⟨r, ?_⟩
      rw [inputLoop] at h ⊢
      dsimp only
      by_cases hlive : s.c.live = true
      all_goals
        simp only [hlive] at h ⊢
        cases h
        rfl
  | fuel + 1, t, s, s', r, h => by
      obtain ⟨r₁, hstep⟩ := inputStep_reads env (beyond t) s r
      rw [inputLoop] at h ⊢
      by_cases hlive : s.c.live = true
      · rw [if_pos hlive] at h ⊢
        rw [hstep]
        generalize inputStep env (beyond t) s = p at h ⊢
        rcases p with ⟨res, s₁⟩
        cases res with
        | progressed => exact inputLoop_reads beyond fuel (t + 1) s₁ s' r₁ h
        | needMore =>
            cases h
            exact ⟨r₁, rfl⟩
        | failed =>
            cases h
            exact ⟨r₁, rfl⟩
        | wild => cases h
      · rw [if_neg hlive] at h ⊢
        cases h
        exact ⟨r, rfl⟩

theorem SshOp.run_reads {op : SshOp} {s s' : Ssh} (r : List (Nat × Nat))
    (h : op.run env s = some s') :
    ∃ r', op.run env { s with reads := r } = some { s' with reads := r' } := by
  cases op with
  | input data beyond fuel =>
      rw [SshOp.run, sshInput] at h ⊢
      by_cases herr : s.c.state = .error
      · rw [if_pos herr] at h ⊢
        cases h
        exact ⟨r, rfl⟩
      rw [if_neg herr] at h ⊢
      by_cases hlong : env.u (s.c.ib.length + data.length) > SSH_IB_SZ
      · rw [if_pos hlong] at h ⊢
        cases h
        exact ⟨r, by rw [fail_reads]; rfl⟩
      rw [if_neg hlong] at h ⊢
      by_cases hwild : s.c.ib.length + data.length > SSH_IB_SZ
      · rw [if_pos hwild] at h
        cases h
      · rw [if_neg hwild] at h ⊢
        exact inputLoop_reads beyond fuel 0 _ s' r h
  | putc b =>
      refine ⟨r, ?_⟩
      cases h
      rw [SshOp.run]
      unfold sshChannelPutc
      dsimp only
      split
      · rfl
      · split <;> rfl
  | flush =>
      cases h
      exact ⟨r, by rw [SshOp.run, sshChannelFlush_reads]⟩
  | emit plain outmax =>
      cases h
      exact ⟨r, by rw [SshOp.run, sshChannelEmit_reads]⟩
  | close =>
      cases h
      exact ⟨r, by rw [SshOp.run, sshChannelClose_reads]⟩
  | _ =>
      cases h
      exact ⟨r, rfl⟩

end

/-! ## Connections -/

/-- A connection that a server for a single client can have. -/
def SshConn.Reached (env : SshEnv) (c : SshConn) : Prop := ∃ s, SshReach env s ∧ s.c = c

namespace SshConn.Reached

variable {env : SshEnv} {c : SshConn}

theorem reset (env : SshEnv) (g : SshShared) : Reached env (sshReset env g).c :=
  ⟨_, ⟨g, [], rfl⟩, rfl⟩

/-- The shared part may be anything. -/
theorem reach (h : Reached env c) (g : SshShared) : ∃ r, SshReach env ⟨c, g, r⟩ := by
  obtain ⟨s, hs, rfl⟩ := h
  have hshared : (SshOp.shared g).run env s = some ⟨s.c, g, s.reads⟩ := rfl
  exact ⟨s.reads, hs.call hshared⟩

/-- A call on the connection, whatever the shared part is then. -/
theorem call (h : Reached env c) {op : SshOp} {g : SshShared} {s' : Ssh}
    (hrun : op.run env ⟨c, g, []⟩ = some s') : Reached env s'.c := by
  obtain ⟨r, hreach⟩ := h.reach g
  obtain ⟨r', hcall⟩ := SshOp.run_reads r hrun
  exact ⟨{ s' with reads := r' }, hreach.call hcall, rfl⟩

end SshConn.Reached

/-! ## Sealing -/

/-- What the server decrypts it also answers encrypted. -/
structure SealInv (c : SshConn) : Prop where
  transport : TransportInv c
  sealed : c.recvEncrypted = true → c.sendEncrypted = true

namespace SealInv

variable {env : SshEnv} {W : Prop}

theorem of_eq {c c' : SshConn} (h : SealInv c) (htr : TransportInv c')
    (hrecv : c'.recvEncrypted = c.recvEncrypted) (hg : c.Grows c') : SealInv c' :=
  ⟨htr, fun hr => hg.send (h.sealed (hrecv ▸ hr))⟩

/-- The acts do not switch decryption on. -/
theorem recv_acts {s s' : Ssh} (h : s.Acts env W s') :
    s'.c.recvEncrypted = s.c.recvEncrypted := by
  refine Ssh.Acts.lift (R := fun s s' => s'.c.recvEncrypted = s.c.recvEncrypted) (fun _ => rfl)
    (fun _ _ _ h h' => h'.trans h) (fun s s' ha => ?_) h
  cases ha with
  | quiet hq => rw [hq.conn.eq]
  | fail why => rw [(Sends.fail s why).conn]
  | send payload => rw [(Sends.sendPacket env s payload).conn]
  | channel c' hc hopen =>
      show c'.recvEncrypted = s.c.recvEncrypted
      rw [hc.eq]
  | _ => rfl

theorem acts {s s' : Ssh} (h : SealInv s.c) (ha : s.Acts env W s') : SealInv s'.c :=
  h.of_eq (h.transport.acts ha) (recv_acts ha) (.acts ha)

theorem fail {s : Ssh} (h : SealInv s.c) (why : String) : SealInv (s.fail why).c := by
  have hs := Sends.fail s why
  exact h.of_eq (h.transport.sends hs) (by rw [hs.conn]) (.sends hs)

/-- A packet switches decryption on only after the keys went into use for what is sent. -/
theorem handled {pl : Payload} {s s' : Ssh} (h : SealInv s.c) (hh : Handled env pl s s')
    (htr : TransportInv s'.c) (hg : s.c.Grows s'.c) : SealInv s'.c := by
  have hcore : s'.c.core = s.c.core → SealInv s'.c := fun hcore => by
    simp only [SshConn.core, Prod.mk.injEq] at hcore
    exact h.of_eq htr hcore.2.2.1 hg
  cases hh with
  | tame ht => exact hcore ht.core
  | kexinit hst hc hk hst' => exact hcore hc.core
  | ecdh hst hc hst' => exact hcore hc.core
  | newkeys hst hc => exact ⟨htr, fun _ => hg.send (h.transport.newkeys hst).1⟩
  | service hst hc hk hst' => exact hcore hc.core
  | granted hst hgr hreq =>
      obtain ⟨s₁, htame, hc⟩ := hgr
      have hsame := htame.core
      simp only [SshConn.core, Prod.mk.injEq] at hsame
      refine h.of_eq htr ?_ hg
      rw [hc]
      exact hsame.2.2.1
  | session hst hw => exact hcore hw.core

theorem turn {s s' : Ssh} {r : TryRes} (h : SealInv s.c) (ht : Turn env s r s') :
    SealInv s'.c := by
  have hdispatch : ∀ s : Ssh, SealInv s.c → ∀ wire mem k need,
      SealInv ((s.dispatch env wire mem k).finish need).c := by
    intro s h wire mem k need
    have hd := dispatch_deed env True s wire mem k fun _ _ => trivial
    have hh := dispatch_handled env s wire mem k
    have hn : SealInv (s.note (s.packetEvent wire (slice mem 0 k))).c :=
      ⟨h.transport.congr rfl, h.sealed⟩
    generalize s.dispatch env wire mem k = s₁ at hd hh ⊢
    have h₁ := hn.handled hh (hd.transportInv hn.transport) (hd.grows hn.transport)
    exact ⟨h₁.transport.congr rfl, h₁.sealed⟩
  have hopened : SealInv (s.c.opened env) := ⟨h.transport.congr rfl, h.sealed⟩
  obtain ⟨htr, hg⟩ := ht.transportInv h.transport
  cases ht with
  | waits => exact h
  | wild => exact h
  | fails s₁ hs₁ why =>
      rcases hs₁ with rfl | rfl
      · exact h.fail why
      · exact SealInv.fail (s := { s with c := s.c.opened env }) hopened why
  | banner hst k hk => exact h.of_eq htr rfl hg
  | version hst k hk line => exact h.of_eq htr rfl hg
  | plain hst henc mem beyond n hib hlen hneed => exact hdispatch s h _ _ _ _
  | opened hst henc hv beyond padlen hpad hle =>
      exact hdispatch { s with c := s.c.opened env } hopened _ _ _ _

theorem emit {s : Ssh} (h : SealInv s.c) (plain : List UInt8) (outmax : Nat) :
    SealInv (sshChannelEmit env s plain outmax).2.c := by
  obtain ⟨s₁, hq, hs⟩ := sshChannelEmit_sends env s plain outmax
  refine h.of_eq ((h.transport.quiet hq).sends hs) ?_ ((SshConn.Grows.quiet hq).trans (.sends hs))
  rw [hs.conn, hq.conn.eq]

end SealInv

/-- An open channel is encrypted in both directions. -/
theorem SshConn.Reached.sealed {env : SshEnv} {c : SshConn} (h : Reached env c)
    (hopen : c.chanOpen = true) : c.sendEncrypted = true := by
  obtain ⟨s, ⟨g, ops, hrun⟩, rfl⟩ := h
  have hreset : SealInv (sshReset env g).c := by
    refine ⟨.reset env g, fun hr => ?_⟩
    obtain ⟨s₀, iS, hc, -, hs⟩ := sshReset_sends env g
    rw [hs.conn, hc] at hr
    cases hr
  have hinv : SealInv s.c := by
    refine sshRun_keeps (P := SealInv) ?_ ?_ ?_ ?_ ops hreset hrun
    · exact fun c data h => ⟨h.transport.congr rfl, h.sealed⟩
    · exact fun s r s' h _ ht => h.turn ht
    · exact fun s s' h ha => h.acts ha
    · exact fun s plain outmax h => h.emit plain outmax
  exact hinv.sealed (hinv.transport.authenticated (hinv.transport.channel (.inl hopen)))

end Dossh
