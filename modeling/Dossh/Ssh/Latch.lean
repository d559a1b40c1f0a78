import Dossh.Ssh.Flood
import Dossh.Ssh.Invariant
import Dossh.Ssh.Termination
import Dossh.Ssh.Verdict

/-!
# A failed connection stays failed

`fail` sets the state and the error flag, and returns.  A handler that goes on after a failed
send and then assigns the state undoes the first and not the second.  Five handlers do so,
and they can fail only when `g_ob` has no room for the packets they send (`Crowded`).  In a
run without such a turn the flag and the state agree.
-/

namespace Dossh

open Ssh

/-! ## Room for packets -/

/-- The length on the wire of a packet with `n` bytes of payload. -/
def wireLen (encrypted : Bool) (n : Nat) : Nat :=
  if encrypted then 4 + (1 + n + padLen (1 + n)) + 16 else 5 + n + padLen (4 + 1 + n)

/-- A packet was queued without an error. -/
structure Ssh.Queued (s s' : Ssh) (n : Nat) : Prop where
  conn : s'.c = { s.c with sendSeq := s'.c.sendSeq, trace := s'.c.trace }
  ob : s'.g.ob.length = s.g.ob.length + n
  cout : s'.g.cout = s.g.cout

theorem sendUnenc_queued (env : SshEnv) (s : Ssh) (payload : List UInt8)
    (hroom : s.g.ob.length + wireLen false payload.length ≤ SSH_OB_SZ) :
    s.Queued (s.sendUnenc env payload) (wireLen false payload.length) := by
  have hlen : wireLen false payload.length =
      5 + payload.length + padLen (4 + 1 + payload.length) := rfl
  rw [hlen] at hroom ⊢
  rw [sendUnenc_fits env s payload rfl (by omega)]
  refine ⟨rfl, ?_, rfl⟩
  simp only [Ssh.framed, List.length_append, length_unencFrame, SshEnv.rngBytes, length_slice]

/-- The size of a sealed packet. -/
theorem length_aeadSeal (env : SshEnv) (s : Ssh) (payload : List UInt8) :
    (s.aeadSeal env payload).1.length = wireLen true payload.length := by
  unfold aeadSeal
  dsimp only
  rw [length_sealFrame, SshEnv.rngBytes, length_slice]
  rfl

theorem sendPacket_queued (env : SshEnv) (s : Ssh) (payload : List UInt8)
    (hfit : s.c.sendEncrypted = true → payload.length ≤ SSH_ENC_MAX_PLEN)
    (hroom : s.g.ob.length + wireLen s.c.sendEncrypted payload.length ≤ SSH_OB_SZ) :
    s.Queued (s.sendPacket env payload) (wireLen s.c.sendEncrypted payload.length) := by
  unfold sendPacket
  split
  next hsealed =>
    rw [hsealed] at hroom ⊢
    rw [sendEnc, if_neg (Nat.not_lt.mpr (hfit hsealed))]
    dsimp only
    have hlen := length_aeadSeal env s payload
    rw [obAppend_fits env _ _ (by rw [hlen]; exact hroom)]
    refine ⟨rfl, ?_, rfl⟩
    rw [List.length_append, hlen]
    rfl
  next hplain =>
    rw [Bool.not_eq_true] at hplain
    rw [hplain] at hroom ⊢
    exact sendUnenc_queued env s payload hroom

/-! ## Handlers that assign the state -/

/-- The payload of the `KEX_ECDH_REPLY`: host key, public key and signature. -/
def replyLen (env : SshEnv) : Nat := 147 + env.hostkeyPk.length

/-- The length of `g_ob` after the loop of `ssh_channel_flush`, with `left` bytes staged. -/
def flushLen : Nat → Nat → Nat → Nat → Nat → Nat
  | 0, _, _, _, ob => ob
  | fuel + 1, left, window, maxpkt, ob =>
      let take := min (min (min left SSH_CHAN_CHUNK) window) maxpkt
      if take = 0 then ob
      else if ob + take + 64 > SSH_OB_SZ then ob
      else flushLen fuel (left - take) (window - take) maxpkt (ob + wireLen true (9 + take))

/-- The length `g_ob` needs for `ssh_channel_close`: what is staged, the exit status, the
`EOF` and the `CLOSE`. -/
def closeLen (c : SshConn) (g : SshShared) : Nat :=
  (if c.chanClosed then g.ob.length
    else flushLen g.cout.length g.cout.length c.peerWindow c.peerMaxpkt g.ob.length) +
  (if c.shellReady then wireLen true 25 else 0) +
  (if c.chanSentEof then 0 else wireLen true 5) + wireLen true 5

/-- The count of failed attempts after a refusal. -/
def attempts (env : SshEnv) (c : SshConn) (counted : Bool) : Nat :=
  if counted then env.u (c.authFails + 1) else c.authFails

/-- The length `g_ob` needs for the packets that are sent before the state is assigned, if the
packet makes a handler send some and assign it. -/
def assignLen (env : SshEnv) (c : SshConn) (g : SshShared) (pl : Payload) : Option Nat :=
  match c.state with
  | .expectEcdhInit =>
      if pl.msg = MSG_KEX_ECDH_INIT ∧ c.discardNext = false ∧ 37 ≤ pl.len ∧
          env.u (pl.u32 1) = 32 ∧
          (env.crypto.x25519 (env.rngBytes g.rngPos 32) (pl.sub 5 32).bytes).all (· = 0) = false then
        some (g.ob.length + wireLen false (replyLen env) + wireLen false 1)
      else none
  | .expectServiceRequest =>
      if pl.msg = MSG_SERVICE_REQUEST ∧ 5 ≤ pl.len ∧ env.u (1 + 4 + env.u (pl.u32 1)) ≤ pl.len ∧
          env.u (pl.u32 1) < 64 then
        some (g.ob.length + wireLen true (5 + env.u (pl.u32 1)))
      else none
  | .auth =>
      if pl.msg = MSG_USERAUTH_REQUEST then
        match userauthVerdict env c.sessionId pl with
        | .granted => some (g.ob.length + wireLen true 1)
        | .refused counted =>
            if SSH_MAX_AUTH_TRIES ≤ attempts env c counted then some (g.ob.length + wireLen true 45)
            else none
        | _ => none
      else none
  | .session =>
      if pl.msg = MSG_CHANNEL_CLOSE ∧ c.chanOpen = true ∧ c.chanSentClose = false then
        some (closeLen c g)
      else none
  | _ => none

/-- The handler of the packet would assign the state although `g_ob` has no room for what it
sends before. -/
def Crowded (env : SshEnv) (c : SshConn) (g : SshShared) (pl : Payload) : Prop :=
  ∃ n, assignLen env c g pl = some n ∧ SSH_OB_SZ < n

/-- The flag and the state agree. -/
def Latched (c : SshConn) : Prop := c.err = true → c.state = .error

section

variable {env : SshEnv} {W : Prop} {pl : Payload} {s s₁ s' : Ssh}

theorem Latched.of_err {c : SshConn} (h : c.err = false) : Latched c := by
  intro herr
  rw [h] at herr
  cases herr

theorem Latched.quiet (h : Latched s.c) (hq : s.Quiet s') : Latched s'.c := by
  intro herr
  rw [hq.err] at herr
  rw [hq.state]
  exact h herr

theorem Latched.sends (h : Latched s.c) (hs : s.Sends s') : Latched s'.c := by
  intro herr
  rcases hs.settles with ⟨hst, herr'⟩ | ⟨hst, -⟩
  · rw [hst]
    exact h (by rw [← herr', herr])
  · exact hst

theorem Latched.act (h : Latched s.c) (ha : s.Act env W s') : Latched s'.c := by
  cases ha with
  | quiet hq => exact h.quiet hq
  | fail why => exact h.sends (.fail s why)
  | send payload => exact h.sends (.sendPacket env s payload)
  | cout staged => exact h
  | key b hst => exact h
  | channel c' hc hopen =>
      rw [hc.eq]
      exact h
  | winsize cols rows hW hst => exact h

theorem Latched.acts (h : Latched s.c) (ha : s.Acts env W s') : Latched s'.c :=
  Ssh.Acts.preserves (P := fun s => Latched s.c) (fun _ _ h ha => h.act ha) ha h

/-! ## Enough room -/

theorem Ssh.Queued.err {n : Nat} (h : s.Queued s' n) : s'.c.err = s.c.err := by
  have hc := congrArg SshConn.err h.conn
  exact hc

theorem Ssh.Queued.sendEncrypted {n : Nat} (h : s.Queued s' n) :
    s'.c.sendEncrypted = s.c.sendEncrypted := by
  have hc := congrArg SshConn.sendEncrypted h.conn
  exact hc

theorem length_ecdhReply (env : SshEnv) (qS : List UInt8) (hqS : qS.length = 32) (h : List UInt8) :
    ([MSG_KEX_ECDH_REPLY] ++ putStr (buildKsBlob env) ++ putStr qS ++ putStr (putNl "ssh-ed25519" ++
      putStr (env.crypto.ed25519Sign env.hostkeySk h))).length = replyLen env := by
  have hname : (ascii "ssh-ed25519").length = 11 := by decide
  have hsig := env.crypto.length_ed25519Sign env.hostkeySk h
  simp only [buildKsBlob, putNl, List.length_append, length_putStr, List.length_singleton, hqS, hsig,
    hname, replyLen]
  omega

/-- The reply and `NEWKEYS` fit. -/
theorem ecdhReply_latched (herr : s.c.err = false) (hplain : s.c.sendEncrypted = false)
    (qC qS raw : List UInt8) (hqS : qS.length = 32)
    (hroom : s.g.ob.length + wireLen false (replyLen env) + wireLen false 1 ≤ SSH_OB_SZ) :
    Latched (ecdhReply env s qC qS raw).c := by
  apply Latched.of_err
  unfold ecdhReply
  dsimp only
  generalize s.c.hctx ++ putStr (buildKsBlob env) ++ putStr qC ++ putStr qS ++
    buildKmpint raw = hctx
  generalize env.crypto.sha256 hctx = h
  have hlen := length_ecdhReply env qS hqS h
  generalize [MSG_KEX_ECDH_REPLY] ++ putStr (buildKsBlob env) ++ putStr qS ++
    putStr (putNl "ssh-ed25519" ++ putStr (env.crypto.ed25519Sign env.hostkeySk h)) = reply
    at hlen ⊢
  generalize (if s.c.haveSessionId then s.c.sessionId else h) = sid
  generalize buildKmpint raw = k
  have h₁ := sendPacket_queued env { s with
    g := { s.g with kmpint := k, hash := h }
    c := { s.c with hctx := hctx, sessionId := sid, haveSessionId := true } } reply
    (by intro hs; rw [hplain] at hs; cases hs) (by rw [hplain, hlen]; dsimp only; omega)
  generalize Ssh.sendPacket env _ reply = s₁ at h₁ ⊢
  have hplain₁ : s₁.c.sendEncrypted = false := by rw [h₁.sendEncrypted, hplain]
  have hob := h₁.ob
  rw [hplain, hlen] at hob
  dsimp only at hob
  generalize deriveKey env.crypto k h s₁.c.sessionId 67 64 = ekC
  generalize deriveKey env.crypto k h s₁.c.sessionId 68 64 = ekS
  have h₂ := sendPacket_queued env { s₁ with
    c := { s₁.c with ekC2s := ekC, ekS2c := ekS, keysReady := true } } [MSG_NEWKEYS]
    (by intro hs; rw [hplain₁] at hs; cases hs)
    (by rw [hplain₁, hob]; exact hroom)
  generalize Ssh.sendPacket env _ [MSG_NEWKEYS] = s₂ at h₂ ⊢
  exact h₂.err.trans (h₁.err.trans herr)

/-- One packet fits, and the state is assigned behind it. -/
theorem sendPacket_err (env : SshEnv) (herr : s.c.err = false) (hsealed : s.c.sendEncrypted = true)
    (payload : List UInt8) (hfit : payload.length ≤ SSH_ENC_MAX_PLEN)
    (hroom : s.g.ob.length + wireLen true payload.length ≤ SSH_OB_SZ) :
    (s.sendPacket env payload).c.err = false := by
  have hq := sendPacket_queued env s payload (fun _ => hfit) (by rw [hsealed]; exact hroom)
  rw [hq.err, herr]

theorem wireLen_channelData (n : Nat) : wireLen true (9 + n) ≤ n + 64 := by
  have hspec := padLen_spec (1 + (9 + n))
  simp only [wireLen, if_true]
  omega

/-- `ssh_channel_flush` leaves room for every packet it queues. -/
theorem flushLoop_queued (env : SshEnv) : ∀ (fuel sent : Nat) {s : Ssh},
    s.c.sendEncrypted = true → s.c.state ≠ .error →
    (flushLoop env fuel sent s).2.g.ob.length =
        flushLen fuel (s.g.cout.length - sent) s.c.peerWindow s.c.peerMaxpkt s.g.ob.length ∧
      (flushLoop env fuel sent s).2.c = { s.c with
        peerWindow := (flushLoop env fuel sent s).2.c.peerWindow
        sendSeq := (flushLoop env fuel sent s).2.c.sendSeq
        trace := (flushLoop env fuel sent s).2.c.trace }
  | 0, sent, s, _, _ => ⟨rfl, rfl⟩
  | fuel + 1, sent, s, hsealed, hst => by
      generalize hr : flushLoop env (fuel + 1) sent s = r
      rw [flushLoop] at hr
      rw [flushLen]
      dsimp only at hr ⊢
      generalize htake : min (min (min (s.g.cout.length - sent) SSH_CHAN_CHUNK) s.c.peerWindow)
        s.c.peerMaxpkt = take at hr ⊢
      split at hr
      next hzero =>
        subst hr
        rw [if_pos hzero]
        exact ⟨rfl, rfl⟩
      next hzero =>
        rw [if_neg hzero]
        split at hr
        next hfull =>
          subst hr
          rw [if_pos hfull]
          exact ⟨rfl, rfl⟩
        next hroom =>
          rw [if_neg hroom]
          have hchunk : SSH_CHAN_CHUNK = 200 := rfl
          have hlen : (channelData s.c ((s.g.cout.drop sent).take take)).length = 9 + take := by
            simp only [channelData, List.length_append, List.length_singleton, length_be32,
              length_putStr, List.length_take, List.length_drop]
            omega
          have hq := sendPacket_queued env s (channelData s.c ((s.g.cout.drop sent).take take))
            (fun _ => by rw [hlen]; simp only [SSH_ENC_MAX_PLEN]; omega)
            (by
              have := wireLen_channelData take
              rw [hsealed, hlen]
              omega)
          rw [hsealed, hlen] at hq
          generalize s.sendPacket env (channelData s.c ((s.g.cout.drop sent).take take)) = s₁
            at hq hr
          have hst₁ : s₁.c.state = s.c.state := by
            have hc := congrArg SshConn.state hq.conn
            exact hc
          rw [if_neg (by rw [hst₁]; exact hst)] at hr
          have hwin : s₁.c.peerWindow = s.c.peerWindow := by
            have hc := congrArg SshConn.peerWindow hq.conn
            exact hc
          have hmax : s₁.c.peerMaxpkt = s.c.peerMaxpkt := by
            have hc := congrArg SshConn.peerMaxpkt hq.conn
            exact hc
          have ih := flushLoop_queued env fuel (sent + take)
            (s := { s₁ with c := { s₁.c with peerWindow := s₁.c.peerWindow - take } })
            (by rw [← hsealed]; exact hq.sendEncrypted) (by rw [← hst₁] at hst; exact hst)
          rw [hr] at ih
          dsimp only at ih
          rw [hwin, hmax, hq.ob, hq.cout, ← Nat.sub_sub] at ih
          refine ⟨ih.1, ih.2.trans ?_⟩
          rw [hq.conn]

theorem sshChannelFlush_queued (env : SshEnv) (hsealed : s.c.sendEncrypted = true)
    (hst : s.c.state ≠ .error) (hopen : s.c.chanOpen = true) :
    (sshChannelFlush env s).g.ob.length = (if s.c.chanClosed then s.g.ob.length
      else flushLen s.g.cout.length s.g.cout.length s.c.peerWindow s.c.peerMaxpkt s.g.ob.length) ∧
    (sshChannelFlush env s).c = { s.c with
      peerWindow := (sshChannelFlush env s).c.peerWindow
      sendSeq := (sshChannelFlush env s).c.sendSeq
      trace := (sshChannelFlush env s).c.trace } := by
  have hloop := flushLoop_queued env s.g.cout.length 0 hsealed hst
  rw [Nat.sub_zero] at hloop
  unfold sshChannelFlush
  rw [hopen]
  rcases s.c.chanClosed with _ | _
  · exact hloop
  · exact ⟨rfl, rfl⟩

/-- Everything `ssh_channel_close` sends fits. -/
theorem sshChannelClose_err (env : SshEnv) (herr : s.c.err = false)
    (hsealed : s.c.sendEncrypted = true) (hst : s.c.state ≠ .error)
    (hroom : s.c.chanOpen = true → s.c.chanSentClose = false → closeLen s.c s.g ≤ SSH_OB_SZ) :
    (sshChannelClose env s).c.err = false := by
  unfold sshChannelClose
  split
  · exact herr
  next hguard =>
    rw [Bool.or_eq_true, not_or] at hguard
    have hopen : s.c.chanOpen = true := by simpa using hguard.1
    have hroom := hroom hopen (by simpa using hguard.2)
    obtain ⟨hob₁, hc₁⟩ := sshChannelFlush_queued env hsealed hst hopen
    unfold closeLen at hroom
    rw [← hob₁] at hroom
    generalize sshChannelFlush env s = s₁ at *
    have hs₁ : s₁.c.err = false ∧ s₁.c.sendEncrypted = true := by
      rw [hc₁]
      exact ⟨herr, hsealed⟩
    have hshell : s₁.c.shellReady = s.c.shellReady := by rw [hc₁]
    have heof : s₁.c.chanSentEof = s.c.chanSentEof := by rw [hc₁]
    rw [← hshell, ← heof] at hroom
    have hexit : ∀ n : Nat, ([MSG_CHANNEL_REQUEST] ++ be32 n ++ putNl "exit-status" ++ [0] ++
      be32 0).length = 25 := fun _ => rfl
    have hshort : ∀ (type : UInt8) (n : Nat), ([type] ++ be32 n).length = 5 := fun _ _ => rfl
    have hmax : SSH_ENC_MAX_PLEN = 247 := rfl
    dsimp only
    -- the exit status
    generalize hs₂ : (if s₁.c.shellReady then _ else s₁) = s₂
    have h₂ : s₂.c.err = false ∧ s₂.c.sendEncrypted = true ∧ s₂.c.chanSentEof = s₁.c.chanSentEof ∧
        s₂.g.ob.length = s₁.g.ob.length + if s₁.c.shellReady then wireLen true 25 else 0 := by
      rw [← hs₂]
      split
      next hsh =>
        rw [if_pos hsh] at hroom
        have hq := sendPacket_queued env s₁ ([MSG_CHANNEL_REQUEST] ++ be32 s₁.c.peerChan ++
          putNl "exit-status" ++ [0] ++ be32 0) (fun _ => by rw [hexit]; omega)
          (by rw [hs₁.2, hexit]; omega)
        rw [hs₁.2, hexit] at hq
        have heof₂ := congrArg SshConn.chanSentEof hq.conn
        exact ⟨hq.err.trans hs₁.1, hq.sendEncrypted.trans hs₁.2, heof₂, hq.ob⟩
      next => exact ⟨hs₁.1, hs₁.2, rfl, rfl⟩
    -- the end of file
    generalize hs₃ : (if !s₂.c.chanSentEof then _ else s₂) = s₃
    have h₃ : s₃.c.err = false ∧ s₃.c.sendEncrypted = true ∧
        s₃.g.ob.length = s₂.g.ob.length + if s₁.c.chanSentEof then 0 else wireLen true 5 := by
      rw [← hs₃, h₂.2.2.1]
      rcases heof₁ : s₁.c.chanSentEof with _ | _
      · rw [heof₁] at hroom
        have hq := sendPacket_queued env s₂ ([MSG_CHANNEL_EOF] ++ be32 s₂.c.peerChan)
          (fun _ => by rw [hshort]; omega)
          (by rw [h₂.2.1, h₂.2.2.2, hshort]; simp at hroom; omega)
        rw [h₂.2.1, hshort] at hq
        exact ⟨hq.err.trans h₂.1, hq.sendEncrypted.trans h₂.2.1, hq.ob⟩
      · exact ⟨h₂.1, h₂.2.1, rfl⟩
    refine sendPacket_err env h₃.1 h₃.2.1 ([MSG_CHANNEL_CLOSE] ++ be32 s₃.c.peerChan)
      (by rw [hshort]; omega) ?_
    rw [hshort, h₃.2.2, h₂.2.2.2]
    omega

/-! ## Packets -/

theorem not_crowded_iff {c : SshConn} {g : SshShared} :
    ¬ Crowded env c g pl ↔ ∀ n, assignLen env c g pl = some n → n ≤ SSH_OB_SZ := by
  unfold Crowded
  constructor
  · intro h n hn
    exact Nat.not_lt.mp fun hlt => h ⟨n, hn, hlt⟩
  · rintro h ⟨n, hn, hlt⟩
    exact absurd (h n hn) (Nat.not_le.mpr hlt)

theorem handleEcdhInit_latched (hinv : TransportInv s.c) (herr : s.c.err = false)
    (hst : s.c.state = .expectEcdhInit)
    (hmsg : pl.msg = MSG_KEX_ECDH_INIT ∨ s.c.discardNext = true)
    (hroom : ¬ Crowded env s.c s.g pl) : Latched (handleEcdhInit env s pl).c := by
  have hfail : ∀ (s : Ssh) (why : String), s.c.err = false → Latched (s.fail why).c :=
    fun s why h => (Latched.of_err h).sends (.fail s why)
  rw [not_crowded_iff] at hroom
  unfold handleEcdhInit
  dsimp only
  split
  · exact .of_err herr
  next hdiscard =>
    split
    · exact hfail _ _ herr
    next h5 =>
      split
      · exact hfail _ _ herr
      next hbad =>
        split
        · exact hfail _ _ herr
        next hgood =>
          rw [not_or, not_not] at hbad
          obtain ⟨h32, hfits⟩ := hbad
          rw [h32, env.u_small (by omega)] at hfits
          rw [Bool.not_eq_true] at hgood hdiscard
          refine ecdhReply_latched (by exact herr)
            (by exact (hinv.keyless (by rw [hst]; rfl)).2) _ _ _
            (env.crypto.length_x25519PublicKey _) (hroom _ ?_)
          have hcond : pl.msg = MSG_KEX_ECDH_INIT ∧ s.c.discardNext = false ∧ 37 ≤ pl.len ∧
              env.u (pl.u32 1) = 32 ∧ (env.crypto.x25519 (env.rngBytes s.g.rngPos 32)
                (pl.sub 5 32).bytes).all (· = 0) = false :=
            ⟨hmsg.resolve_right (by simp [hdiscard]), hdiscard, by omega, h32, hgood⟩
          rw [assignLen, hst]
          exact if_pos hcond

theorem handleServiceRequest_latched (hinv : TransportInv s.c) (herr : s.c.err = false)
    (hst : s.c.state = .expectServiceRequest) (hmsg : pl.msg = MSG_SERVICE_REQUEST)
    (hroom : ¬ Crowded env s.c s.g pl) : Latched (handleServiceRequest env s pl).c := by
  have hfail : ∀ (s : Ssh) (why : String), s.c.err = false → Latched (s.fail why).c :=
    fun s why h => (Latched.of_err h).sends (.fail s why)
  rw [not_crowded_iff] at hroom
  unfold handleServiceRequest
  dsimp only
  split
  · exact hfail _ _ herr
  next h5 =>
    split
    · exact hfail _ _ herr
    next hname =>
      rw [not_or] at hname
      have hlen : ([MSG_SERVICE_ACCEPT] ++ putStr (pl.sub 5 (env.u (pl.u32 1))).bytes).length =
          5 + env.u (pl.u32 1) := by
        rw [List.length_append, length_putStr, Payload.bytes, length_slice]
        simp only [List.length_singleton, Payload.sub]
        omega
      have hmax : SSH_ENC_MAX_PLEN = 247 := rfl
      apply Latched.of_err
      refine sendPacket_err env (by exact herr) (by exact (hinv.late (by rw [hst]; rfl)).2.1) _ ?_ ?_
      · rw [hlen]
        omega
      · rw [hlen]
        refine hroom _ ?_
        rw [assignLen, hst]
        exact if_pos ⟨hmsg, by omega, by omega, by omega⟩

theorem handleUserauthRequest_latched (hinv : TransportInv s.c) (herr : s.c.err = false)
    (hst : s.c.state = .auth) (hmsg : pl.msg = MSG_USERAUTH_REQUEST)
    (hroom : ¬ Crowded env s.c s.g pl) : Latched (handleUserauthRequest env s pl).c := by
  rw [not_crowded_iff, assignLen, hst] at hroom
  dsimp only at hroom
  rw [if_pos hmsg] at hroom
  have hsealed := (hinv.late (by rw [hst]; rfl)).2.1
  have hf := handleUserauthRequest_follows env s pl
  -- the connection the answer is given on
  have hlook : ∀ {s₁ : Ssh}, s.Looks s₁ → s₁.c.err = false ∧ s₁.c.sendEncrypted = true ∧
      s₁.c.authFails = s.c.authFails ∧ s₁.g.ob = s.g.ob := by
    intro s₁ h
    rw [h.conn, h.shared]
    exact ⟨herr, hsealed, rfl, rfl⟩
  generalize userauthVerdict env s.c.sessionId pl = v at hf hroom
  cases hf with
  | malformed s₁ h why hs' =>
      rw [hs']
      exact (Latched.of_err (hlook h).1).sends (.fail s₁ why)
  | probed s₁ h algo blob hs' =>
      rw [hs']
      exact (Latched.of_err (hlook h).1).sends (.sendPacket env s₁ _)
  | granted s₁ h hs' =>
      obtain ⟨herr₁, hsealed₁, -, hob⟩ := hlook h
      rw [hs', sendUserauthSuccess]
      apply Latched.of_err
      refine sendPacket_err env herr₁ hsealed₁ [MSG_USERAUTH_SUCCESS] (by decide) ?_
      rw [hob]
      exact hroom _ rfl
  | refused s₁ h counted hs' =>
      obtain ⟨herr₁, hsealed₁, hfails, hob⟩ := hlook h
      rw [hs']
      unfold authReject
      generalize hs₂ : (if counted then
        { s₁ with c := { s₁.c with authFails := env.u (s₁.c.authFails + 1) } } else s₁) = s₂
      have h₂ : s₂.c.err = false ∧ s₂.c.sendEncrypted = true ∧ s₂.g.ob = s.g.ob ∧
          s₂.c.authFails = attempts env s.c counted := by
        rw [← hs₂, attempts, ← hfails]
        split
        · exact ⟨herr₁, hsealed₁, hob, rfl⟩
        · exact ⟨herr₁, hsealed₁, hob, rfl⟩
      dsimp only
      split
      next htries =>
        rw [sendDisconnect]
        apply Latched.of_err
        refine sendPacket_err env h₂.1 h₂.2.1 _ (by decide) ?_
        rw [h₂.2.2.1]
        rw [h₂.2.2.2] at htries
        exact hroom _ (if_pos htries)
      next => exact (Latched.of_err h₂.1).sends (.sendPacket env s₂ _)

theorem handleByState_latched (hinv : TransportInv s.c) (herr : s.c.err = false)
    (hroom : ¬ Crowded env s.c s.g pl) : Latched (handleByState env s pl pl.msg).c := by
  have hlatched : Latched s.c := .of_err herr
  unfold handleByState
  split
  next hst =>
    split
    · exact hlatched.sends (.fail s _)
    · unfold handleKexinit
      have hq := negotiate_quiet env s pl
      generalize negotiate env s pl = r at hq ⊢
      obtain ⟨res, s₁⟩ := r
      have herr₁ : s₁.c.err = false := by rw [hq.err, herr]
      cases res with
      | malformed => exact (Latched.of_err herr₁).sends (.fail s₁ _)
      | noCommon => exact (Latched.of_err herr₁).sends (.fail s₁ _)
      | ok => exact .of_err (by exact herr₁)
  next hst =>
    split
    · exact hlatched.sends (.fail s _)
    next hmsg =>
      rw [not_and_or, not_not, Bool.not_eq_false] at hmsg
      exact handleEcdhInit_latched hinv herr hst hmsg hroom
  next hst =>
    split
    · exact hlatched.sends (.fail s _)
    · exact .of_err (by exact herr)
  next hst =>
    split
    · exact hlatched.sends (.fail s _)
    next hmsg => exact handleServiceRequest_latched hinv herr hst (not_not.mp hmsg) hroom
  next hst =>
    split
    next hmsg => exact handleUserauthRequest_latched hinv herr hst hmsg hroom
    next => exact hlatched
  next hst =>
    rcases Classical.em (pl.msg = MSG_CHANNEL_CLOSE) with hclose | hclose
    · rw [handleSession, hclose]
      have hroom' : s.c.chanOpen = true → s.c.chanSentClose = false →
          closeLen s.c s.g ≤ SSH_OB_SZ := by
        intro hopen hsent
        refine not_crowded_iff.mp hroom _ ?_
        rw [assignLen, hst]
        exact if_pos ⟨hclose, hopen, hsent⟩
      apply Latched.of_err
      change (if !s.c.chanSentClose then sshChannelClose env s else s).c.err = false
      split
      · exact sshChannelClose_err env herr (hinv.late (by rw [hst]; rfl)).2.1
          (by rw [hst]; decide) hroom'
      · exact herr
    · exact hlatched.acts (handleSession_acts (W := True) env hst pl hclose fun _ _ => trivial)
  all_goals exact hlatched.sends (.fail s _)

/-- A packet that is handled with enough room keeps the flag and the state in step. -/
theorem handlePacket_latched (hinv : TransportInv s.c) (herr : s.c.err = false)
    (hroom : ¬ Crowded env s.c s.g pl) : Latched (handlePacket env s pl).c := by
  unfold handlePacket
  dsimp only
  generalize hs₁ : (if pl.len ≠ 0 then s.read pl 0 1 else s) = s₁
  have hs : s₁.c = s.c ∧ s₁.g = s.g := by
    rw [← hs₁]
    split <;> exact ⟨rfl, rfl⟩
  rw [← hs.1] at hinv herr
  rw [← hs.1, ← hs.2] at hroom
  split
  · exact .of_err (by exact herr)
  · split
    · exact .of_err herr
    · split
      · exact (Latched.of_err herr).acts (handleGlobalRequest_acts (W := True) env s₁ pl)
      · exact handleByState_latched hinv herr hroom

/-! ## Runs -/

/-- The packet in front of the buffer is handled without room for the answer. -/
def CrowdedTurn (env : SshEnv) (beyond : Nat → UInt8) (s : Ssh) : Prop :=
  s.c.state ≠ .version ∧ ∃ c wire pl need, decode env beyond s.c = .packet c wire pl need ∧
    Crowded env s.c s.g pl

/-- No turn of the input loop in a run is crowded. -/
def Uncrowded (env : SshEnv) : List SshOp → Ssh → Prop
  | [], _ => True
  | op :: ops, s =>
      (∀ data beyond fuel, op = .input data beyond fuel → ∀ k < fuel, ∀ s₁,
        inputTurn env beyond s data k = some s₁ → ¬ CrowdedTurn env (beyond k) s₁) ∧
      ∀ s', op.run env s = some s' → Uncrowded env ops s'

theorem tryVersion_latched (hlatched : Latched s.c) (hst : s.c.state = .version) :
    Latched (tryVersion s).2.c := by
  have herr : s.c.err = false := by
    rcases herr : s.c.err with _ | _
    · rfl
    · rw [hlatched herr] at hst
      cases hst
  unfold tryVersion
  split
  · exact hlatched
  · exact hlatched.sends (.fail s _)
  · dsimp only
    split
    · exact .of_err (by exact herr)
    · exact .of_err (by exact herr)

/-- A turn that is not crowded. -/
theorem inputStep_latched {beyond : Nat → UInt8} (hinv : TransportInv s.c)
    (hlatched : Latched s.c) (hlive : s.c.live = true) (hroom : ¬ CrowdedTurn env beyond s) :
    Latched (inputStep env beyond s).2.c := by
  have herr : s.c.err = false := by
    rcases herr : s.c.err with _ | _
    · rfl
    · have hst := hlatched herr
      simp [SshConn.live, hst] at hlive
  unfold inputStep
  split
  next hst => exact tryVersion_latched hlatched hst
  next hst =>
    rw [← tryPacketWith_handlePacket]
    unfold tryPacketWith
    have hconn : ∀ c', (decode env beyond s.c).conn? = some c' → c' = { s.c with ib := c'.ib } :=
      fun _ => decode_conn
    cases hdec : decode env beyond s.c with
    | needMore => exact hlatched
    | wild => exact hlatched
    | failed c why =>
        rw [hdec] at hconn
        have hc := hconn c rfl
        refine Latched.sends (s := { s with c := c }) ?_ (.fail _ why)
        apply Latched.of_err
        dsimp only
        rw [hc]
        exact herr
    | packet c wire pl need =>
        have hcrowd : ¬ Crowded env s.c s.g pl := fun h => hroom ⟨hst, c, wire, pl, need, hdec, h⟩
        rw [hdec] at hconn
        have hc := hconn c rfl
        have hhandled : ∀ s₁ : Ssh, s₁.c = { s.c with ib := s₁.c.ib, trace := s₁.c.trace } →
            s₁.g = s.g → Latched (handlePacket env s₁ pl).c := by
          intro s₁ hc₁ hg₁
          refine handlePacket_latched ?_ ?_ ?_
          · rw [hc₁]
            exact hinv.congr rfl
          · rw [hc₁]
            exact herr
          · rw [hc₁, hg₁]
            exact hcrowd
        rw [Decoded.run]
        refine hhandled { ({ s with c := c } : Ssh).note
          (({ s with c := c } : Ssh).packetEvent wire pl.bytes) with reads := [] } ?_ rfl
        simp only [Ssh.note]
        rw [hc]

theorem inputLoop_latched {beyond : Nat → Nat → UInt8} : ∀ (fuel t : Nat) {s s' : Ssh},
    TransportInv s.c → Latched s.c →
    (∀ k < fuel, ∀ s₁, turnState env beyond k t s = some s₁ →
      ¬ CrowdedTurn env (beyond (t + k)) s₁) →
    (inputLoop env beyond fuel t s).state? = some s' → Latched s'.c
  | 0, t, s, s', hinv, hlatched, hroom, h => by
      rw [inputLoop] at h
      split at h
      all_goals
        cases h
        exact hlatched
  | fuel + 1, t, s, s', hinv, hlatched, hroom, h => by
      rw [inputLoop] at h
      split at h
      next hlive =>
        have hhere := hroom 0 (Nat.succ_pos _) s (by rw [turnState, if_pos hlive])
        rw [Nat.add_zero] at hhere
        have hstep := inputStep_latched hinv hlatched hlive hhere
        have hturn := (inputStep_turn env (beyond t) s).transportInv hinv
        split at h
        next s₁ heq =>
          rw [heq] at hstep hturn
          refine inputLoop_latched fuel (t + 1) hturn.1 hstep (fun k hk s₂ hs₂ => ?_) h
          rw [Nat.add_assoc, Nat.add_comm 1 k]
          exact hroom (k + 1) (by omega) s₂ (by rw [turnState_succ hlive heq, hs₂])
        next s₁ heq =>
          rw [heq] at hstep
          cases h
          exact hstep
        next s₁ heq =>
          rw [heq] at hstep
          cases h
          exact hstep
        next => cases h
      next =>
        cases h
        exact hlatched

/-- Along a run without a crowded turn the flag and the state agree. -/
theorem sshRun_latched : ∀ (ops : List SshOp) {s s' : Ssh}, TransportInv s.c → Latched s.c →
    Uncrowded env ops s → sshRun env ops s = some s' → Latched s'.c
  | [], s, s', _, hlatched, _, hrun => by
      cases hrun
      exact hlatched
  | op :: ops, s, s', hinv, hlatched, hroom, hrun => by
      have hinv' : ∀ s₁, op.run env s = some s₁ → TransportInv s₁.c := fun s₁ hop =>
        (sshRun_transportInv [op] hinv (by rw [sshRun, hop]; rfl)).1
      rw [sshRun, Option.bind_eq_some_iff] at hrun
      obtain ⟨s₁, hop, hrest⟩ := hrun
      refine sshRun_latched ops (hinv' s₁ hop) ?_ (hroom.2 s₁ hop) hrest
      cases op with
      | input data beyond fuel =>
          have hturns := hroom.1 data beyond fuel rfl
          simp only [SshOp.run, sshInput] at hop
          split at hop
          · cases hop
            exact hlatched
          next hst =>
            split at hop
            · cases hop
              exact hlatched.sends (.fail s _)
            · split at hop
              · cases hop
              next hfits =>
                refine inputLoop_latched fuel 0
                  (s := { s with c := { s.c with ib := s.c.ib ++ data } })
                  (hinv.congr rfl) hlatched ?_ hop
                intro k hk s₂ hs₂
                rw [Nat.zero_add]
                exact hturns k hk s₂ (by rw [inputTurn, if_neg (not_or.mpr ⟨hst, hfits⟩), hs₂])
      | putc b =>
          cases hop
          unfold sshChannelPutc
          repeat' split
          all_goals exact hlatched
      | flush =>
          cases hop
          exact hlatched.acts (sshChannelFlush_acts (W := True) env s)
      | emit plain outmax =>
          cases hop
          obtain ⟨s₂, hq, hs⟩ := sshChannelEmit_sends env s plain outmax
          exact (hlatched.quiet hq).sends hs
      | close =>
          cases hop
          exact hlatched.acts (sshChannelClose_acts (W := True) env s)
      | _ =>
          cases hop
          exact hlatched

/-! ## Failed connections -/

/-- A failed connection, as it was or with frames queued behind the failure. -/
structure SshConn.Dead (c c' : SshConn) : Prop where
  state : c'.state = .error
  err : c'.err = true
  authenticated : c'.authenticated = c.authenticated
  keys : c'.keysReady = c.keysReady ∧ c'.secrets = c.secrets
  trace : ∃ es, c'.trace = es ++ c.trace ∧ ∀ e ∈ es, e.inner = true

theorem SshConn.Dead.refl {c : SshConn} (hst : c.state = .error) (herr : c.err = true) :
    c.Dead c := ⟨hst, herr, rfl, ⟨rfl, rfl⟩, [], rfl, by simp⟩

theorem SshConn.Dead.quiet {c : SshConn} (h : c.Dead s.c) (hq : s.Quiet s') : c.Dead s'.c := by
  rw [hq.conn.eq]
  exact ⟨h.state, h.err, h.authenticated, h.keys, h.trace⟩

theorem SshConn.Dead.sends {c : SshConn} (h : c.Dead s.c) (hs : s.Sends s') : c.Dead s'.c := by
  have hfailed : s'.c.state = .error ∧ s'.c.err = true := by
    rcases hs.settles with ⟨hst, herr⟩ | hfailed
    · rw [hst, herr]
      exact ⟨h.state, h.err⟩
    · exact hfailed
  obtain ⟨es, htr, hes⟩ := h.trace
  obtain ⟨es', htr', hes'⟩ := hs.logs
  refine ⟨hfailed.1, hfailed.2, ?_, ?_, es' ++ es, by rw [htr', htr, List.append_assoc], ?_⟩
  · rw [hs.conn]
    exact h.authenticated
  · rw [hs.conn]
    exact h.keys
  · intro e he
    rcases List.mem_append.mp he with he' | he'
    · obtain ⟨seq, payload, bytes, rfl⟩ := hes' e he'
      rfl
    · exact hes e he'

theorem SshConn.Dead.act {c : SshConn} (h : c.Dead s.c) (ha : s.Act env W s') : c.Dead s'.c := by
  cases ha with
  | quiet hq => exact h.quiet hq
  | fail why => exact h.sends (.fail s why)
  | send payload => exact h.sends (.sendPacket env s payload)
  | cout staged => exact h
  | key b hst =>
      rw [h.state] at hst
      cases hst
  | channel c' hc hopen =>
      rw [hc.eq]
      exact ⟨h.state, h.err, h.authenticated, h.keys, h.trace⟩
  | winsize cols rows hW hst =>
      rw [h.state] at hst
      cases hst

/-- No call revives a failed connection. -/
theorem sshRun_dead (ops : List SshOp) (h : s.c.Dead s.c) (hrun : sshRun env ops s = some s') :
    s.c.Dead s'.c := by
  refine sshRun_keeps (P := fun c => s.c.Dead c) ?_ ?_ ?_ ?_ ops h hrun
  · exact fun c data hd => ⟨hd.state, hd.err, hd.authenticated, hd.keys, hd.trace⟩
  · intro s₁ r s₂ hd hlive
    simp [SshConn.live, hd.state] at hlive
  · exact fun s₁ s₂ hd hacts =>
      Ssh.Acts.preserves (P := fun s₁ => s.c.Dead s₁.c) (fun _ _ hd ha => hd.act ha) hacts hd
  · intro s₁ plain outmax hd
    obtain ⟨s₂, hq, hs⟩ := sshChannelEmit_sends env s₁ plain outmax
    exact (hd.quiet hq).sends hs

theorem Latched.reset (env : SshEnv) (g : SshShared) : Latched (sshReset env g).c := by
  obtain ⟨s₀, iS, hc, -, hs⟩ := sshReset_sends env g
  refine Latched.sends (s := s₀) (.of_err ?_) hs
  rw [hc]
  rfl

end

/-- In a run in which no handler assigns the state without room for what it sends, a connection
with the error flag is in state `ERROR` and stays there: `ssh_input` returns at once, nothing
more is dispatched, and neither its keys nor its authentication change. -/
theorem error_state_absorbing {env : SshEnv} {g : SshShared} {ops : List SshOp} {s : Ssh}
    (hrun : sshRun env ops (sshReset env g) = some s)
    (hroom : Uncrowded env ops (sshReset env g)) (herr : s.c.err = true) :
    s.c.state = .error ∧ ∀ ops' s', sshRun env ops' s = some s' →
      s'.c.state = .error ∧ s'.c.err = true ∧ sshFailed s'.c = true ∧
      (∀ beyond fuel data, sshInput env beyond fuel s' data = .back s') ∧
      (∃ es, s'.c.trace = es ++ s.c.trace ∧
        ∀ st encrypted seq sid wire payload, .packet st encrypted seq sid wire payload ∉ es) ∧
      s'.c.authenticated = s.c.authenticated ∧ s'.c.keysReady = s.c.keysReady ∧
      s'.c.ekC2s = s.c.ekC2s ∧ s'.c.ekS2c = s.c.ekS2c ∧ s'.c.sessionId = s.c.sessionId := by
  have hst := sshRun_latched ops (.reset env g) (.reset env g) hroom hrun herr
  refine ⟨hst, fun ops' s' hrun' => ?_⟩
  have hdead := sshRun_dead ops' (.refl hst herr) hrun'
  obtain ⟨es, htr, hes⟩ := hdead.trace
  obtain ⟨hready, hsec⟩ := hdead.keys
  simp only [SshConn.secrets, Prod.mk.injEq] at hsec
  refine ⟨hdead.state, hdead.err, by simp [sshFailed, hdead.state], fun beyond fuel data => ?_,
    ⟨es, htr, fun st encrypted seq sid wire payload hmem => ?_⟩, hdead.authenticated, hready,
    hsec.2.1, hsec.2.2, hsec.1⟩
  · rw [sshInput, if_pos hdead.state]
  · exact absurd (hes _ hmem) (by simp [SshEvent.inner])

/-- A chunk that does not fit the input buffer. -/
theorem error_state_absorbing_overflow : ∃ s,
    sshRun sampleEnv [.input (List.replicate 2049 0) (fun _ _ => 0) 8]
      (sshReset sampleEnv SshShared.zero) = some s ∧ s.c.err = true ∧ s.c.state = .error ∧
    ∀ beyond fuel data, sshInput sampleEnv beyond fuel s data = .back s := by
  have hib : (sshReset sampleEnv SshShared.zero).c.ib = [] := by decide +kernel
  have hst : (sshReset sampleEnv SshShared.zero).c.state = .version := by decide +kernel
  have hlong : SSH_IB_SZ < sampleEnv.u (0 + 2049) := by decide
  refine ⟨(sshReset sampleEnv SshShared.zero).fail "input overflow", ?_⟩
  have hrun : sshRun sampleEnv [.input (List.replicate 2049 0) (fun _ _ => 0) 8]
      (sshReset sampleEnv SshShared.zero) =
      some ((sshReset sampleEnv SshShared.zero).fail "input overflow") := by
    rw [sshRun, SshOp.run, sshInput, hst, hib, if_neg (by decide), List.length_nil,
      List.length_replicate, if_pos hlong]
    rfl
  have herr : ((sshReset sampleEnv SshShared.zero).fail "input overflow").c.err = true := by
    rw [Ssh.fail, hst, if_pos (by decide)]
  have hroom : Uncrowded sampleEnv [.input (List.replicate 2049 0) (fun _ _ => 0) 8]
      (sshReset sampleEnv SshShared.zero) := by
    refine ⟨fun data beyond fuel hop k hk s₁ hturn => ?_, fun _ _ => trivial⟩
    cases hop
    rw [inputTurn, hib, List.length_replicate, if_pos (.inr (by decide))] at hturn
    cases hturn
  obtain ⟨hstate, hlater⟩ := error_state_absorbing hrun hroom herr
  exact ⟨hrun, herr, hstate, (hlater [] _ rfl).2.2.2.1⟩

/-! ## A reply without room -/

section

variable {env : SshEnv} {s s' : Ssh}

theorem Ssh.Sends.err (h : s.Sends s') (herr : s.c.err = true) : s'.c.err = true := by
  rcases h.settles with ⟨-, herr'⟩ | ⟨-, herr'⟩
  · rw [herr', herr]
  · exact herr'

theorem obAppend_full (hst : s.c.state ≠ .error) {d : List UInt8}
    (hfull : SSH_OB_SZ < s.g.ob.length + d.length) (hsmall : s.g.ob.length + d.length < 65536) :
    (s.obAppend env d).c.err = true := by
  rw [obAppend, env.u_small hsmall, if_pos hfull]
  change (s.fail "output overflow").c.err = true
  rw [Ssh.fail, if_pos hst]

/-- A packet that does not fit sets the error flag. -/
theorem sendUnenc_full {payload : List UInt8} (hst : s.c.state ≠ .error)
    (hob : s.g.ob.length ≤ SSH_OB_SZ) (hlen : payload.length ≤ SSH_OB_SZ)
    (hfull : SSH_OB_SZ < s.g.ob.length + wireLen false payload.length) :
    (s.sendUnenc env payload).c.err = true := by
  have hsz : SSH_OB_SZ = 2048 := rfl
  have hpadLen := padLen_spec (4 + 1 + payload.length)
  have hpad : (env.rngBytes s.g.rngPos (padLen (4 + 1 + payload.length))).length =
      padLen (4 + 1 + payload.length) := length_slice _ _ _
  have hwire : wireLen false payload.length =
      5 + payload.length + padLen (4 + 1 + payload.length) := rfl
  rw [hwire] at hfull
  have hhdr : ∀ n m : Nat, (be32 n ++ [UInt8.ofNat m]).length = 5 := fun _ _ => rfl
  unfold sendUnenc
  dsimp only
  generalize env.rngBytes s.g.rngPos (padLen (4 + 1 + payload.length)) = pad at hpad ⊢
  generalize padLen (4 + 1 + payload.length) = n at *
  generalize hh : be32 (1 + payload.length + n) ++ [UInt8.ofNat n] = hdr
  have hhdr : hdr.length = 5 := by
    rw [← hh]
    exact hhdr _ _
  change (Ssh.obAppend env (Ssh.rngSkip _ _) pad).c.err = true
  -- the part that does not fit is the header, the payload or the padding
  rcases Nat.lt_or_ge SSH_OB_SZ (s.g.ob.length + 5) with h₁ | h₁
  · have herr : (s.obAppend env hdr).c.err = true :=
      obAppend_full (by exact hst) (by omega) (by omega)
    exact (Sends.obAppend env _ pad).err ((Sends.obAppend env _ payload).err herr)
  rw [obAppend_fits env s hdr (by omega)]
  rcases Nat.lt_or_ge SSH_OB_SZ (s.g.ob.length + 5 + payload.length) with h₂ | h₂
  · refine (Sends.obAppend env _ pad).err (obAppend_full (by exact hst) ?_ ?_)
    all_goals
      simp only [List.length_append, hhdr]
      omega
  rw [obAppend_fits env _ payload (by simp only [List.length_append, hhdr]; omega)]
  refine obAppend_full (by exact hst) ?_ ?_
  all_goals
    simp only [rngSkip, List.length_append, hhdr]
    omega

/-- A key exchange that is answered without room ends with the flag set and the state
overwritten. -/
theorem ecdhReply_full (env : SshEnv) (hst : s.c.state ≠ .error)
    (hplain : s.c.sendEncrypted = false) (hob : s.g.ob.length ≤ SSH_OB_SZ) (qC qS raw : List UInt8)
    (hqS : qS.length = 32) (hpk : env.hostkeyPk.length = 32)
    (hfull : SSH_OB_SZ < s.g.ob.length + wireLen false 179) :
    (ecdhReply env s qC qS raw).c.err = true ∧
      (ecdhReply env s qC qS raw).c.state = .expectClientNewkeys ∧
      (ecdhReply env s qC qS raw).c.keysReady = true := by
  obtain ⟨s', heq, hc, -⟩ := ecdhReply_conn env s qC qS raw
  refine ⟨?_, by rw [heq, hc], by rw [heq, hc]⟩
  unfold ecdhReply
  dsimp only
  generalize s.c.hctx ++ putStr (buildKsBlob env) ++ putStr qC ++ putStr qS ++
    buildKmpint raw = hctx
  generalize env.crypto.sha256 hctx = h
  have hreply := length_ecdhReply env qS hqS h
  rw [replyLen, hpk] at hreply
  generalize [MSG_KEX_ECDH_REPLY] ++ putStr (buildKsBlob env) ++ putStr qS ++
    putStr (putNl "ssh-ed25519" ++ putStr (env.crypto.ed25519Sign env.hostkeySk h)) = reply
    at hreply ⊢
  generalize (if s.c.haveSessionId then s.c.sessionId else h) = sid
  generalize buildKmpint raw = k
  have herr : (Ssh.sendPacket env { s with
      g := { s.g with kmpint := k, hash := h }
      c := { s.c with hctx := hctx, sessionId := sid, haveSessionId := true } } reply).c.err =
      true := by
    rw [sendPacket, hplain, if_neg (by decide)]
    exact sendUnenc_full hst hob (by rw [hreply]; decide) (by rw [hreply]; exact hfull)
  generalize Ssh.sendPacket env _ reply = s₁ at herr ⊢
  generalize deriveKey env.crypto k h s₁.c.sessionId 67 64 = ekC
  generalize deriveKey env.crypto k h s₁.c.sessionId 68 64 = ekS
  exact (Sends.sendPacket env { s₁ with
    c := { s₁.c with ekC2s := ekC, ekS2c := ekS, keysReady := true } } [MSG_NEWKEYS]).err herr

theorem handlePacket_full (env : SshEnv) {pl : Payload} (hpk : env.hostkeyPk.length = 32)
    (hlen : 37 ≤ pl.len) (hmsg : pl.msg = MSG_KEX_ECDH_INIT) (hq : env.u (pl.u32 1) = 32)
    (hgood : ∀ sk pk, (env.crypto.x25519 sk pk).all (· = 0) = false)
    (hst : s.c.state = .expectEcdhInit) (hnext : s.c.discardNext = false)
    (hplain : s.c.sendEncrypted = false) (hob : s.g.ob.length ≤ SSH_OB_SZ)
    (hfull : SSH_OB_SZ < s.g.ob.length + wireLen false 179) :
    (handlePacket env s pl).c.err = true ∧
      (handlePacket env s pl).c.state = .expectClientNewkeys ∧
      (handlePacket env s pl).c.keysReady = true := by
  have h37 : env.u (1 + 4 + 32) = 37 := env.u_small (by omega)
  generalize hr : handlePacket env s pl = r
  unfold handlePacket at hr
  dsimp only at hr
  rw [hmsg, if_neg (by decide), if_neg (by decide), if_neg (by decide)] at hr
  generalize hs₁ : (if pl.len ≠ 0 then s.read pl 0 1 else s) = s₁ at hr
  have hs : s₁.c = s.c ∧ s₁.g = s.g := by
    rw [← hs₁]
    split <;> exact ⟨rfl, rfl⟩
  rw [← hs.1] at hst hnext hplain
  rw [← hs.2] at hob hfull
  rw [handleByState, hst] at hr
  dsimp only at hr
  rw [if_neg (by simp), handleEcdhInit, hnext, if_neg (by decide), if_neg (by omega)] at hr
  dsimp only at hr
  rw [hq, h37, if_neg (by omega), hgood, if_neg (by decide)] at hr
  rw [← hr]
  exact ecdhReply_full env (by exact fun h => by cases hst.symm.trans h) (by exact hplain)
    (by exact hob) _ _ _ (env.crypto.length_x25519PublicKey _) hpk (by exact hfull)

/-- The init packet of the sample client. -/
def sampleInit : List UInt8 := [MSG_KEX_ECDH_INIT] ++ putStr (List.replicate 32 8)

/-- The packet is in front of the buffer. -/
theorem inputStep_sampleInit (beyond : Nat → UInt8)
    (hib : s.c.ib = plainFrame sampleInit) (hst : s.c.state = .expectEcdhInit)
    (hnext : s.c.discardNext = false) (hrecv : s.c.recvEncrypted = false)
    (hplain : s.c.sendEncrypted = false) (hob : s.g.ob.length ≤ SSH_OB_SZ)
    (hfull : SSH_OB_SZ < s.g.ob.length + wireLen false 179) :
    ∃ s', inputStep sampleEnv beyond s = (.progressed, s') ∧ s'.c.err = true ∧
      s'.c.state = .expectClientNewkeys ∧ s'.c.keysReady = true := by
  have hframe : s.c.ib = unencFrame sampleInit (List.replicate (padLen 42) 0) ++ [] := by
    rw [hib]
    decide
  have hok : (⟨sampleInit, List.replicate (padLen 42) 0⟩ : Msg).Ok false :=
    ⟨by decide, nofun, fun _ => by decide⟩
  obtain ⟨pl, hdec, hbytes⟩ : ∃ pl : Payload, decodePlain sampleEnv beyond s.c =
      .packet s.c (unencFrame sampleInit (List.replicate (padLen 42) 0)) pl
        (unencFrame sampleInit (List.replicate (padLen 42) 0)).length ∧ pl.bytes = sampleInit :=
    decodePlain_frame hok hframe
  rw [inputStep, if_neg (by rw [hst]; decide), ← tryPacketWith_handlePacket, tryPacketWith, decode,
    hrecv, if_neg (by decide), hdec]
  have hlen : pl.len = 37 := by
    have := congrArg List.length hbytes
    rwa [Payload.bytes, length_slice] at this
  have hmsg : pl.msg = MSG_KEX_ECDH_INIT := by
    rw [Payload.msg, if_pos (by omega), Payload.get_of_bytes hbytes (by decide)]
    rfl
  have hq : sampleEnv.u (pl.u32 1) = 32 := by
    rw [Payload.u32_of_bytes hbytes (by decide)]
    decide
  refine ⟨_, rfl, ?_⟩
  exact handlePacket_full sampleEnv (by decide) (by omega) hmsg hq (fun _ _ => rfl) (by exact hst)
    (by exact hnext) (by exact hplain) (by exact hob) (by exact hfull)

end

/-- A client that begins its key exchange, has 113 requests answered without taking any
answer, and then goes on. -/
def floodOps : List SshOp :=
  [.input (greeting (sampleKex.take 1)) (fun _ _ => 0) 8,
    .input (List.replicate 113 pingFrame).flatten (fun _ _ => 0) 114,
    .input (plainFrame sampleInit) (fun _ _ => 0) 1]

/-- The reply to the key exchange does not fit, and the handler goes on to the next state with
the error flag set. -/
theorem error_latch_overwritten : ∃ s,
    sshRun sampleEnv floodOps (sshReset sampleEnv SshShared.zero) = some s ∧ s.c.err = true ∧
    s.c.state = .expectClientNewkeys ∧ sshFailed s.c = false ∧ s.c.keysReady = true := by
  have hgreet : ((SshOp.input (greeting (sampleKex.take 1)) (fun _ _ => 0) 8).run sampleEnv
      (sshReset sampleEnv SshShared.zero)).map (fun s => (s.c.state,
        [s.c.discardNext, s.c.recvEncrypted, s.c.sendEncrypted], s.c.ib, s.g.ob.length)) =
      some (.expectEcdhInit, [false, false, false], [], 227) := by decide +kernel
  obtain ⟨s₁, hs₁, hf⟩ := Option.map_eq_some_iff.mp hgreet
  simp only [Prod.mk.injEq, List.cons.injEq, and_true] at hf
  obtain ⟨hst, ⟨hnext, hrecv, hplain⟩, hib, hob⟩ := hf
  obtain ⟨s₂, hs₂, ha⟩ := sshInput_pings sampleEnv (fun _ _ => 0) (n := 113) (s := s₁)
    (Nat.lt_succ_self 113) (by simp [SshConn.live, hst]) (by rw [hst]; decide) hrecv hplain hib
    (by rw [hob]; decide)
  have hc := ha.conn
  have hob₂ : s₂.g.ob.length = 2035 := by
    rw [ha.shared, length_ob_answers, hob]
  have hst₂ : s₂.c.state = .expectEcdhInit := by rw [hc, hst]
  have hib₂ : s₂.c.ib = [] := by rw [hc]
  obtain ⟨s₃, hs₃, herr, hst₃, hready⟩ := inputStep_sampleInit (fun _ => 0)
    (s := { s₂ with c := { s₂.c with ib := plainFrame sampleInit } }) rfl hst₂
    (by rw [hc]; exact hnext) (by rw [hc]; exact hrecv) (by rw [hc]; exact hplain)
    (by rw [hob₂]; decide) (by rw [hob₂]; decide)
  refine ⟨s₃, ?_, herr, hst₃, by simp [sshFailed, hst₃], hready⟩
  have hlive₂ : ({ s₂ with c := { s₂.c with ib := plainFrame sampleInit } } : Ssh).c.live = true := by
    simp [SshConn.live, hst₂]
  have hlive₃ : s₃.c.live = true := by simp [SshConn.live, hst₃]
  have hinput : sshInput sampleEnv (fun _ _ => 0) 1 s₂ (plainFrame sampleInit) = .running s₃ := by
    rw [sshInput, hst₂, hib₂, if_neg (by decide), if_neg (by decide), if_neg (by decide),
      List.nil_append, inputLoop, if_pos hlive₂, hs₃]
    dsimp only
    rw [inputLoop, if_pos hlive₃]
  rw [floodOps, sshRun, hs₁, Option.bind_some, sshRun, SshOp.run, hs₂, Outcome.state?,
    Option.bind_some, sshRun, SshOp.run, hinput]
  rfl

end Dossh
