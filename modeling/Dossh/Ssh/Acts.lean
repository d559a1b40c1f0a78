import Mathlib.Logic.Relation
import Dossh.Ssh.Run

/-!
# What the server can do

Every handler is a sequence of acts.  Most of them leave the connection as it is, up to
bookkeeping that nothing else reads (`Ssh.Quiet`), or queue a packet.  The few handlers that
assign the state of the connection do so at their end, after at most some quiet acts and the
packets they send, and `Deed` lists them.

An invariant of the server is proved once per act and once per deed.  The terminal size may
change only if `W`, so that a result about packets that do not change it can be stated.
-/

namespace Dossh

/-! ## Acts -/

/-- Only bookkeeping differs: the guess of the client, the names it gave, the count of its
attempts, and the numbers and flags of its channel that are read by the channel alone. -/
structure SshConn.SameButAux (c c' : SshConn) : Prop where
  eq : c' = { c with
    done := c'.done, cliFirstFollows := c'.cliFirstFollows, discardNext := c'.discardNext
    svcName := c'.svcName, authFails := c'.authFails, authUser := c'.authUser
    peerChan := c'.peerChan, localChan := c'.localChan, peerWindow := c'.peerWindow
    peerMaxpkt := c'.peerMaxpkt, localWindow := c'.localWindow, pty := c'.pty
    chanEof := c'.chanEof, chanSentEof := c'.chanSentEof, chanClosed := c'.chanClosed }

/-- The channel was opened, made ready or closed, besides. -/
structure SshConn.SameButChannel (c c' : SshConn) : Prop where
  eq : c' = { c with
    done := c'.done, cliFirstFollows := c'.cliFirstFollows, discardNext := c'.discardNext
    svcName := c'.svcName, authFails := c'.authFails, authUser := c'.authUser
    peerChan := c'.peerChan, localChan := c'.localChan, peerWindow := c'.peerWindow
    peerMaxpkt := c'.peerMaxpkt, localWindow := c'.localWindow, pty := c'.pty
    chanEof := c'.chanEof, chanSentEof := c'.chanSentEof, chanClosed := c'.chanClosed
    chanOpen := c'.chanOpen, shellReady := c'.shellReady, chanSentClose := c'.chanSentClose }

namespace Ssh

/-- Bookkeeping, reading the payload and drawing random bytes. -/
structure Quiet (s s' : Ssh) : Prop where
  conn : s.c.SameButAux s'.c
  shared : s'.g = { s.g with rngPos := s'.g.rngPos }

/-- One act of the server on a connection. -/
inductive Act (env : SshEnv) (W : Prop) (s : Ssh) : Ssh → Prop where
  | quiet {s' : Ssh} (h : s.Quiet s') : Act env W s s'
  | fail (why : String) : Act env W s (s.fail why)
  | send (payload : List UInt8) : Act env W s (s.sendPacket env payload)
  | cout (staged : List UInt8) : Act env W s { s with g := { s.g with cout := staged } }
  | key (b : UInt8) (hst : s.c.state = .session) : Act env W s (s.pushKey b)
  | channel (c' : SshConn) (h : s.c.SameButChannel c')
      (hopen : s.c.state = .session ∨ s.c.chanOpen = true) : Act env W s { s with c := c' }
  | winsize (cols rows : Nat) (hW : W) (hst : s.c.state = .session) :
      Act env W s { s with c := { s.c with termCols := cols, termRows := rows } }

/-- A sequence of acts. -/
abbrev Acts (env : SshEnv) (W : Prop) : Ssh → Ssh → Prop := Relation.ReflTransGen (Act env W)

/-- An invariant of the acts is one of their sequences. -/
theorem Acts.preserves {env : SshEnv} {W : Prop} {P : Ssh → Prop}
    (hact : ∀ s s', P s → Act env W s s' → P s') {s s' : Ssh} (h : Acts env W s s') (hP : P s) :
    P s' := by
  induction h with
  | refl => exact hP
  | tail _ hstep ih => exact hact _ _ ih hstep

/-- A relation that every act satisfies and that composes. -/
theorem Acts.lift {env : SshEnv} {W : Prop} {R : Ssh → Ssh → Prop} (hrefl : ∀ s, R s s)
    (htrans : ∀ s s' s'', R s s' → R s' s'' → R s s'') (hact : ∀ s s', Act env W s s' → R s s')
    {s s' : Ssh} (h : Acts env W s s') : R s s' := by
  induction h with
  | refl => exact hrefl s
  | tail _ hstep ih => exact htrans _ _ _ ih (hact _ _ hstep)

section

variable {env : SshEnv} {W : Prop} {s s' s'' : Ssh}

theorem Acts.one (h : Act env W s s') : Acts env W s s' := .single h

/-- The later acts given first. -/
theorem Acts.before (h' : Acts env W s' s'') (h : Acts env W s s') : Acts env W s s'' := h.trans h'

theorem Quiet.refl (s : Ssh) : s.Quiet s := ⟨⟨rfl⟩, rfl⟩

theorem Quiet.trans (h : s.Quiet s') (h' : s'.Quiet s'') : s.Quiet s'' := by
  refine ⟨⟨?_⟩, ?_⟩
  · have h₁ := h.conn.eq
    have h₂ := h'.conn.eq
    rw [h₁] at h₂
    exact h₂
  · have h₁ := h.shared
    have h₂ := h'.shared
    rw [h₁] at h₂
    exact h₂

theorem Quiet.before (h' : s'.Quiet s'') (h : s.Quiet s') : s.Quiet s'' := h.trans h'

/-- Reading the payload. -/
theorem Quiet.of_eq (hc : s'.c = s.c) (hg : s'.g = s.g) : s.Quiet s' := by
  refine ⟨⟨?_⟩, ?_⟩
  · rw [hc]
  · rw [hg]

theorem Quiet.conn_eq {c' : SshConn} (h : s.c.SameButAux c') : s.Quiet { s with c := c' } :=
  ⟨h, rfl⟩

theorem Quiet.rngSkip (s : Ssh) (n : Nat) : s.Quiet (s.rngSkip n) := ⟨⟨rfl⟩, rfl⟩

theorem Quiet.acts (h : s.Quiet s') : Acts env W s s' := .single (.quiet h)

theorem Quiet.state (h : s.Quiet s') : s'.c.state = s.c.state := by
  have hc := congrArg SshConn.state h.conn.eq
  exact hc

theorem Quiet.err (h : s.Quiet s') : s'.c.err = s.c.err := by
  have hc := congrArg SshConn.err h.conn.eq
  exact hc

theorem Quiet.ob (h : s.Quiet s') : s'.g.ob = s.g.ob := by
  have hg := congrArg SshShared.ob h.shared
  exact hg

end

/-! ## Reading -/

@[simp] theorem readString_shared (s : Ssh) (p : Payload) (o : Nat) :
    (s.readString p o).g = s.g := by
  unfold readString
  split <;> rfl

@[simp] theorem readBlob_shared (s : Ssh) (p : Payload) : (s.readBlob p).g = s.g := by
  unfold readBlob
  dsimp only
  repeat' split
  all_goals simp [readAll, Ssh.read]

@[simp] theorem readMethod_shared (s : Ssh) (p : Payload) (n : Nat) :
    (s.readMethod p n).g = s.g := by
  unfold readMethod
  split <;> rfl

@[simp] theorem read_shared (s : Ssh) (p : Payload) (o n : Nat) : (s.read p o n).g = s.g := rfl

@[simp] theorem readAll_shared (s : Ssh) (p : Payload) : (s.readAll p).g = s.g := rfl

theorem Quiet.read (s : Ssh) (p : Payload) (o n : Nat) : s.Quiet (s.read p o n) :=
  .of_eq rfl rfl

theorem Quiet.readAll (s : Ssh) (p : Payload) : s.Quiet (s.readAll p) := .of_eq rfl rfl

end Ssh

open Ssh

variable {env : SshEnv} {W : Prop}

/-! ## Key exchange and authentication -/

theorem negCheck_quiet (s : Ssh) (first : UInt8) (kex hk enc1 enc2 : Payload) :
    s.Quiet (negCheck s first kex hk enc1 enc2).2 := by
  generalize hr : negCheck s first kex hk enc1 enc2 = r
  unfold negCheck at hr
  dsimp only at hr
  generalize hs₁ : (if kex.nlHas "curve25519-sha256" then s.readNlHas kex "curve25519-sha256"
      else (s.readNlHas kex "curve25519-sha256").readNlHas kex
        "curve25519-sha256@libssh.org") = s₁ at hr
  have h₁ : s.Quiet s₁ := by
    rw [← hs₁]
    split <;> exact .of_eq rfl rfl
  repeat' split at hr
  all_goals subst hr
  · exact h₁
  · exact h₁.trans (.of_eq rfl rfl)
  · exact h₁.trans (.of_eq rfl rfl)
  · exact h₁.trans (.of_eq rfl rfl)
  · exact h₁.trans ⟨⟨rfl⟩, rfl⟩

theorem negotiate_quiet (env : SshEnv) (s : Ssh) (pl : Payload) :
    s.Quiet (negotiate env s pl).2 := by
  generalize hr : negotiate env s pl = r
  unfold negotiate at hr
  generalize negLists env pl 10 17 = q at hr
  obtain ⟨reads, found⟩ := q
  cases found with
  | none =>
      subst hr
      exact .of_eq rfl rfl
  | some found =>
      dsimp only at hr
      split at hr
      · subst hr
        exact .of_eq rfl rfl
      · subst hr
        exact (negCheck_quiet _ _ _ _ _ _).before ⟨⟨rfl⟩, rfl⟩

/-- `auth_reject` answers, or ends the connection. -/
theorem authReject_cases (env : SshEnv) (s : Ssh) (countIt : Bool) :
    Ssh.Acts env W s (authReject env s countIt) ∨
    ∃ s₁, s.Quiet s₁ ∧ authReject env s countIt =
      sendDisconnect env s₁ DISCONNECT_NO_MORE_AUTH "too many authentication failures" := by
  unfold authReject
  generalize hs₁ : (if countIt then
    { s with c := { s.c with authFails := env.u (s.c.authFails + 1) } } else s) = s₁
  have h₁ : s.Quiet s₁ := by
    rw [← hs₁]
    split
    · exact .conn_eq ⟨rfl⟩
    · exact .refl s
  dsimp only
  split
  · exact .inr ⟨s₁, h₁, rfl⟩
  · exact .inl ((Ssh.Acts.one (.send _)).before h₁.acts)

/-- How a `USERAUTH_REQUEST` can end. -/
inductive AuthDeed (env : SshEnv) (W : Prop) (s s' : Ssh) : Prop where
  | acts (h : Ssh.Acts env W s s')
  | rejected (s₁ : Ssh) (h : s.Quiet s₁) (hs' : s' =
      sendDisconnect env s₁ DISCONNECT_NO_MORE_AUTH "too many authentication failures")
  | granted (s₁ : Ssh) (h : s.Quiet s₁) (hs' : s' = sendUserauthSuccess env s₁)

theorem AuthDeed.before {s s₁ s' : Ssh} (h : AuthDeed env W s₁ s') (hq : s.Quiet s₁) :
    AuthDeed env W s s' := by
  cases h with
  | acts h => exact .acts (h.before hq.acts)
  | rejected s₂ h hs' => exact .rejected s₂ (hq.trans h) hs'
  | granted s₂ h hs' => exact .granted s₂ (hq.trans h) hs'

theorem authReject_deed (env : SshEnv) (s : Ssh) (countIt : Bool) :
    AuthDeed env W s (authReject env s countIt) := by
  rcases authReject_cases env s countIt with h | ⟨s₁, h, hs'⟩
  · exact .acts h
  · exact .rejected s₁ h hs'

theorem sendUserauthSuccess_deed (env : SshEnv) (s : Ssh) :
    AuthDeed env W s (sendUserauthSuccess env s) := .granted s (.refl s) rfl

theorem sendPkOk_deed (env : SshEnv) (s : Ssh) (algo blob : Payload) :
    AuthDeed env W s (sendPkOk env s algo blob) := by
  unfold sendPkOk
  dsimp only
  split
  · exact authReject_deed env s true
  · have hread : s.Quiet ((s.readAll algo).readAll blob) := .of_eq rfl rfl
    exact .acts ((Ssh.Acts.one (.send _)).before hread.acts)

theorem handlePasswordAuth_deed (env : SshEnv) (s : Ssh) (pl : Payload) (o : Nat) :
    AuthDeed env W s (handlePasswordAuth env s pl o) := by
  unfold handlePasswordAuth
  dsimp only
  split
  · exact authReject_deed env s true
  · split
    · exact (authReject_deed env _ true).before (.of_eq rfl rfl)
    · split
      · exact (authReject_deed env _ true).before (.of_eq (by simp) (by simp))
      next pw o' heq =>
        generalize hs₁ : (if pw.len = env.password.length then _ else _) = s₁
        have h₁ : s.Quiet s₁ := by
          rw [← hs₁]
          split <;> exact .of_eq (by simp) (by simp)
        split
        · exact (sendUserauthSuccess_deed env s₁).before h₁
        · exact (authReject_deed env s₁ true).before h₁

theorem handlePubkeySigned_deed (env : SshEnv) (s : Ssh) (pl : Payload) (o : Nat)
    (user service algo blob key : Payload) :
    AuthDeed env W s (handlePubkeySigned env s pl o user service algo blob key) := by
  unfold handlePubkeySigned
  dsimp only
  split
  · exact (authReject_deed env _ true).before (.of_eq (by simp) (by simp))
  · split
    · exact (authReject_deed env _ true).before (.of_eq (by simp) (by simp))
    · split
      · exact (authReject_deed env _ true).before (.of_eq (by simp) (by simp))
      · split
        · exact (authReject_deed env _ true).before (.of_eq (by simp) (by simp))
        · split
          · exact (sendUserauthSuccess_deed env _).before (.of_eq (by simp) (by simp))
          · exact (authReject_deed env _ true).before (.of_eq (by simp) (by simp))

theorem handlePubkeyAuth_deed (env : SshEnv) (s : Ssh) (pl : Payload) (o : Nat)
    (user service : Payload) :
    AuthDeed env W s (handlePubkeyAuth env s pl o user service) := by
  unfold handlePubkeyAuth
  dsimp only
  split
  · exact authReject_deed env s true
  · split
    · exact (authReject_deed env _ true).before (.of_eq (by simp) (by simp))
    · split
      · exact (authReject_deed env _ true).before (.of_eq (by simp) (by simp))
      next algo o₁ halgo blob o₂ hblob =>
        generalize hs₁ : (if Payload.len _ = 11 then _ else _) = s₁
        have h₁ : s.Quiet s₁ := by
          rw [← hs₁]
          split <;> exact .of_eq (by simp) (by simp)
        split
        · exact (authReject_deed env _ true).before h₁
        · split
          · exact (authReject_deed env _ true).before (h₁.trans (.of_eq (by simp) (by simp)))
          · generalize hs₂ : (if env.authkeys.isEmpty then _ else _) = s₂
            have h₂ : s.Quiet s₂ := by
              rw [← hs₂]
              split <;> exact h₁.trans (.of_eq (by simp) (by simp))
            split
            · split
              · exact (authReject_deed env _ true).before h₂
              · exact (sendPkOk_deed env _ _ _).before h₂
            · exact (handlePubkeySigned_deed env _ _ _ _ _ _ _ _).before h₂

theorem userauthMethod_deed (env : SshEnv) (s : Ssh) (pl : Payload) (o : Nat)
    (user service method : Payload) :
    AuthDeed env W s (userauthMethod env s pl o user service method) := by
  unfold userauthMethod
  dsimp only
  split
  · exact sendUserauthSuccess_deed env s
  · split
    · split
      · exact (authReject_deed env _ true).before (.of_eq (by simp) (by simp))
      · exact (handlePubkeyAuth_deed env _ pl o user service).before (.of_eq (by simp) (by simp))
    · generalize hs₁ : (if env.havePassword = true then _ else _) = s₁
      have h₁ : s.Quiet s₁ := by
        rw [← hs₁]
        split <;> exact .of_eq (by simp) (by simp)
      split
      · exact (handlePasswordAuth_deed env _ pl o).before h₁
      · exact (authReject_deed env _ _).before (h₁.trans (.of_eq (by simp) (by simp)))

theorem handleUserauthRequest_deed (env : SshEnv) (s : Ssh) (pl : Payload) :
    AuthDeed env W s (handleUserauthRequest env s pl) := by
  have hfail : ∀ (s : Ssh) (why : String), AuthDeed env W s (s.fail why) :=
    fun s why => .acts (.single (.fail why))
  unfold handleUserauthRequest
  dsimp only
  split
  · exact (hfail _ _).before (.of_eq (by simp) (by simp))
  · split
    · exact (hfail _ _).before (.of_eq (by simp) (by simp))
    · split
      · exact (hfail _ _).before (.of_eq (by simp) (by simp))
      · refine (userauthMethod_deed env _ pl _ _ _ _).before ?_
        refine (Quiet.conn_eq ⟨rfl⟩).before (.of_eq (by simp) (by simp))

/-! ## The channel -/

theorem channelOpenReply_acts (env : SshEnv) {s : Ssh} (hst : s.c.state = .session)
    (isSession : Bool) (sender iwin maxp : Nat) :
    Ssh.Acts env W s (channelOpenReply env s isSession sender iwin maxp) := by
  unfold channelOpenReply
  dsimp only
  split
  · exact .one (.send _)
  · exact (Ssh.Acts.one (.send _)).before (.one (.channel _ ⟨rfl⟩ (.inl hst)))

theorem handleChannelOpen_acts (env : SshEnv) {s : Ssh} (hst : s.c.state = .session)
    (pl : Payload) : Ssh.Acts env W s (handleChannelOpen env s pl) := by
  unfold handleChannelOpen
  dsimp only
  split
  · exact .one (.fail _)
  · split
    · exact (Ssh.Acts.one (.fail _)).before (Quiet.read s _ _ _).acts
    · generalize hs₁ : (ite (Bool.and _ _ = true) _ _ : Ssh) = s₁
      have h₁ : s.Quiet s₁ := by
        rw [← hs₁]
        split <;> exact .of_eq rfl rfl
      exact (channelOpenReply_acts env (by rw [h₁.state, hst]) _ _ _ _).before h₁.acts

theorem readWinsize_acts (env : SshEnv) {s : Ssh} (hW : W) (hst : s.c.state = .session)
    (pl : Payload) (o : Nat) : Ssh.Acts env W s (readWinsize env s pl o) := by
  unfold readWinsize
  dsimp only
  split
  · generalize hs₁ : (s.read pl o 4).read pl (o + 4) 4 = s₁
    have h₁ : s.Quiet s₁ := by
      rw [← hs₁]
      exact .of_eq rfl rfl
    exact (Ssh.Acts.one (.winsize _ _ hW (by rw [h₁.state, hst]))).before h₁.acts
  · exact .refl

/-- Requests that carry a terminal size. -/
def resizes (rtype : List UInt8) : Prop := rtype = ascii "pty-req" ∨ rtype = ascii "window-change"

theorem channelRequest_acts (env : SshEnv) {s : Ssh} (hst : s.c.state = .session)
    (pl rtype : Payload) (o : Nat) (hW : resizes rtype.bytes → W) :
    Ssh.Acts env W s (channelRequest env s pl rtype o).2 := by
  generalize hr : channelRequest env s pl rtype o = r
  unfold channelRequest at hr
  dsimp only at hr
  generalize hs₁ : (if rtype.len = 7 ∨ rtype.len = 5 ∨ rtype.len = 4 ∨ rtype.len = 13 then
    s.readAll rtype else s) = s₁ at hr
  have h₁ : s.Quiet s₁ := by
    rw [← hs₁]
    split <;> exact .of_eq rfl rfl
  have hst₁ : s₁.c.state = .session := by rw [h₁.state, hst]
  refine Ssh.Acts.before ?_ h₁.acts
  split at hr
  next hpty =>
    subst hr
    generalize hs₂ : (if env.u (o + 4) ≤ pl.len then readWinsize env (s₁.read pl o 4) pl
      (env.u (o + 4 + env.u (pl.u32 o))) else s₁) = s₂
    have h₂ : Ssh.Acts env W s₁ s₂ := by
      rw [← hs₂]
      split
      · exact (readWinsize_acts env (hW (.inl hpty)) (by exact hst₁) pl _).before
          (Quiet.read s₁ _ _ _).acts
      · exact .refl
    exact (Quiet.conn_eq ⟨rfl⟩).acts.before h₂
  next =>
    split at hr
    · subst hr
      exact .one (.channel _ ⟨rfl⟩ (.inl hst₁))
    · split at hr
      next hwc =>
        subst hr
        exact readWinsize_acts env (hW (.inr hwc)) hst₁ pl o
      next =>
        subst hr
        exact .refl

theorem handleChannelRequest_acts (env : SshEnv) {s : Ssh} (hst : s.c.state = .session)
    (pl : Payload) (hW : resizes (pl.sub 9 (env.u (pl.u32 5))).bytes → W) :
    Ssh.Acts env W s (handleChannelRequest env s pl) := by
  unfold handleChannelRequest
  dsimp only
  split
  · exact .refl
  · split
    · exact .refl
    · split
      · exact (Quiet.read s _ _ _).acts
      · generalize hs₁ : ((s.read pl 5 4).read pl (env.u (9 + env.u (pl.u32 5))) 1) = s₁
        have h₁ : s.Quiet s₁ := by
          rw [← hs₁]
          exact .of_eq rfl rfl
        have hreq := (channelRequest_acts env (by rw [h₁.state, hst]) pl _
          (env.u (env.u (9 + env.u (pl.u32 5)) + 1)) hW).before h₁.acts
        split
        · exact (Ssh.Acts.one (.send _)).before hreq
        · exact hreq

theorem cinLoop_acts (env : SshEnv) (pl : Payload) : ∀ (k o : Nat) {s : Ssh},
    s.c.state = .session → Ssh.Acts env W s (cinLoop pl k o s)
  | 0, _, s, _ => .refl
  | k + 1, o, s, hst => by
      rw [cinLoop]
      split
      · exact .refl
      · refine (cinLoop_acts env pl k (o + 1) (by exact hst)).before ?_
        exact (Ssh.Acts.one (.key _ (by exact hst))).before (Quiet.read s _ _ _).acts

theorem adjustLocalWindow_acts (env : SshEnv) (s : Ssh) (consumed : Nat) :
    Ssh.Acts env W s (adjustLocalWindow env s consumed) := by
  unfold adjustLocalWindow
  generalize hs₁ : ({ s with c := { s.c with
    localWindow := s.c.localWindow - consumed } } : Ssh) = s₁
  have h₁ : s.Quiet s₁ := by
    rw [← hs₁]
    exact .conn_eq ⟨rfl⟩
  refine Ssh.Acts.before ?_ h₁.acts
  dsimp only
  split
  · exact .refl
  · exact (Quiet.conn_eq ⟨rfl⟩).acts.before (.one (.send _))

theorem handleChannelData_acts (env : SshEnv) {s : Ssh} (hst : s.c.state = .session)
    (pl : Payload) : Ssh.Acts env W s (handleChannelData env s pl) := by
  unfold handleChannelData
  dsimp only
  split
  · exact .refl
  · refine (adjustLocalWindow_acts env _ _).before ?_
    exact (cinLoop_acts env pl _ _ (by exact hst)).before (Quiet.read s _ _ _).acts

theorem handleChannelWindowAdjust_acts (env : SshEnv) (s : Ssh) (pl : Payload) :
    Ssh.Acts env W s (handleChannelWindowAdjust s pl) := by
  unfold handleChannelWindowAdjust
  dsimp only
  split
  · exact .refl
  · exact (Quiet.conn_eq ⟨rfl⟩).acts.before (Quiet.read s _ _ _).acts

theorem handleGlobalRequest_acts (env : SshEnv) (s : Ssh) (pl : Payload) :
    Ssh.Acts env W s (handleGlobalRequest env s pl) := by
  unfold handleGlobalRequest
  dsimp only
  split
  · exact .refl
  · split
    · split
      · exact (Ssh.Acts.one (.send _)).before ((Quiet.read _ _ _ _).acts.before (Quiet.read s _ _ _).acts)
      · exact (Quiet.read _ _ _ _).acts.before (Quiet.read s _ _ _).acts
    · exact (Quiet.read s _ _ _).acts

/-! ## The byte interface -/

theorem flushLoop_acts (env : SshEnv) : ∀ (fuel sent : Nat) (s : Ssh),
    Ssh.Acts env W s (flushLoop env fuel sent s).2
  | 0, _, s => .refl
  | fuel + 1, sent, s => by
      generalize hr : flushLoop env (fuel + 1) sent s = r
      rw [flushLoop] at hr
      dsimp only at hr
      split at hr
      · subst hr
        exact .refl
      · split at hr
        · subst hr
          exact .refl
        · split at hr
          · subst hr
            exact .one (.send _)
          · subst hr
            refine (flushLoop_acts env fuel _ _).before ?_
            exact (Quiet.conn_eq ⟨rfl⟩).acts.before (.one (.send _))

theorem sshChannelFlush_acts (env : SshEnv) (s : Ssh) : Ssh.Acts env W s (sshChannelFlush env s) := by
  unfold sshChannelFlush
  split
  · exact .one (.cout _)
  · exact (Ssh.Acts.one (.cout _)).before (flushLoop_acts env _ _ s)

theorem sshChannelClose_acts (env : SshEnv) (s : Ssh) : Ssh.Acts env W s (sshChannelClose env s) := by
  unfold sshChannelClose
  split
  · exact .refl
  next hguard =>
    have hopen : s.c.chanOpen = true := by
      rw [Bool.or_eq_true, not_or] at hguard
      simpa using hguard.1
    -- the channel is open until its last packet is queued
    have h₁ : Ssh.Acts env W s (sshChannelFlush env s) := sshChannelFlush_acts env s
    have ho₁ : (sshChannelFlush env s).c.chanOpen = true := by
      rw [(sshChannelFlush_tame env s).chanOpen, hopen]
    have hsend : ∀ (s : Ssh) (p : List UInt8), (s.sendPacket env p).c.chanOpen = s.c.chanOpen :=
      fun s p => (Tame.sendPacket env s p).chanOpen
    generalize sshChannelFlush env s = s₁ at *
    dsimp only
    generalize hs₂ : (if s₁.c.shellReady then _ else s₁) = s₂
    have h₂ : Ssh.Acts env W s₁ s₂ ∧ s₂.c.chanOpen = true := by
      rw [← hs₂]
      split
      · exact ⟨.one (.send _), by rw [hsend, ho₁]⟩
      · exact ⟨.refl, ho₁⟩
    generalize hs₃ : (if !s₂.c.chanSentEof then _ else s₂) = s₃
    have h₃ : Ssh.Acts env W s₂ s₃ ∧ s₃.c.chanOpen = true := by
      rw [← hs₃]
      split
      · exact ⟨(Quiet.conn_eq ⟨rfl⟩).acts.before (.one (.send _)), (hsend _ _).trans h₂.2⟩
      · exact ⟨.refl, h₂.2⟩
    refine Ssh.Acts.before ?_ ((h₁.trans h₂.1).trans h₃.1)
    refine (Ssh.Acts.one (.channel _ ⟨rfl⟩ (.inr ?_))).before (.one (.send _))
    rw [hsend, h₃.2]

/-! ## Deeds -/

/-- What `handle_packet` can do. -/
inductive Deed (env : SshEnv) (W : Prop) (pl : Payload) (s s' : Ssh) : Prop where
  | acts (h : Ssh.Acts env W s s')
  | disconnect (s₁ : Ssh) (h : s.Quiet s₁) (hs' : s' = { s₁ with c := { s₁.c with
      state := .closed } })
  | kexinit (hst : s.c.state = .expectKexinit) (s₁ : Ssh) (h : s.Quiet s₁)
      (hmsg : pl.msg = MSG_KEXINIT) (hneg : (negotiate env s₁ pl).1 = .ok)
      (hs' : s' = { (negotiate env s₁ pl).2.readAll pl with c := { (negotiate env s₁ pl).2.c with
        hctx := putStr s.c.cliVer ++ putNl SERVER_ID ++ putStr pl.bytes ++ putStr s.c.iS
        state := .expectEcdhInit } })
  | ecdh (hst : s.c.state = .expectEcdhInit) (s₁ : Ssh) (h : s.Quiet s₁)
      (hmsg : pl.msg = MSG_KEX_ECDH_INIT) (hlen : 37 ≤ pl.len) (hq : env.u (pl.u32 1) = 32)
      (raw : List UInt8)
      (hraw : raw = env.crypto.x25519 (env.rngBytes s.g.rngPos 32) (pl.sub 5 32).bytes)
      (hgood : raw.all (· = 0) = false)
      (hs' : s' = ecdhReply env s₁ (pl.sub 5 32).bytes
        (env.crypto.x25519PublicKey (env.rngBytes s.g.rngPos 32)) raw)
  | newkeys (hst : s.c.state = .expectClientNewkeys) (hg : s'.g = s.g)
      (hc : s'.c = { s.c with recvEncrypted := true, state := .expectServiceRequest })
  | service (hst : s.c.state = .expectServiceRequest) (s₁ : Ssh) (h : s.Quiet s₁)
      (name : List UInt8) (hname : name.length < 64)
      (hs' : s' = { s₁.sendPacket env ([MSG_SERVICE_ACCEPT] ++ putStr name) with
        c := { (s₁.sendPacket env ([MSG_SERVICE_ACCEPT] ++ putStr name)).c with state := .auth } })
  | rejected (hst : s.c.state = .auth) (s₁ : Ssh) (h : s.Quiet s₁) (hs' : s' =
      sendDisconnect env s₁ DISCONNECT_NO_MORE_AUTH "too many authentication failures")
  | granted (hst : s.c.state = .auth) (s₁ : Ssh) (h : s.Quiet s₁)
      (hs' : s' = sendUserauthSuccess env s₁)
  | closed (hst : s.c.state = .session) (s₁ : Ssh) (h : s.Quiet s₁) (s₂ : Ssh)
      (hs₂ : s₂ = if !s₁.c.chanSentClose then sshChannelClose env s₁ else s₁)
      (hs' : s' = { s₂ with c := { s₂.c with chanClosed := true, state := .closed } })

/-- What came before does not matter if it only read. -/
theorem Deed.of_eq {pl : Payload} {s s₁ s' : Ssh} (h : Deed env W pl s₁ s') (hc : s₁.c = s.c)
    (hg : s₁.g = s.g) : Deed env W pl s s' := by
  have hq : s.Quiet s₁ := .of_eq hc hg
  cases h with
  | acts h => exact .acts (h.before hq.acts)
  | disconnect s₂ h hs' => exact .disconnect s₂ (hq.trans h) hs'
  | kexinit hst s₂ h hmsg hneg hs' =>
      rw [hc] at hst hs'
      exact .kexinit hst s₂ (hq.trans h) hmsg hneg hs'
  | ecdh hst s₂ h hmsg hlen hqc raw hraw hgood hs' =>
      rw [hc] at hst
      rw [hg] at hraw hs'
      exact .ecdh hst s₂ (hq.trans h) hmsg hlen hqc raw hraw hgood hs'
  | newkeys hst hg' hc' =>
      rw [hc] at hst hc'
      exact .newkeys hst (hg'.trans hg) hc'
  | service hst s₂ h name hname hs' =>
      rw [hc] at hst
      exact .service hst s₂ (hq.trans h) name hname hs'
  | rejected hst s₂ h hs' =>
      rw [hc] at hst
      exact .rejected hst s₂ (hq.trans h) hs'
  | granted hst s₂ h hs' =>
      rw [hc] at hst
      exact .granted hst s₂ (hq.trans h) hs'
  | closed hst s₂ h s₃ hs₃ hs' =>
      rw [hc] at hst
      exact .closed hst s₂ (hq.trans h) s₃ hs₃ hs'

theorem handleKexinit_deed (env : SshEnv) {s : Ssh} (hst : s.c.state = .expectKexinit)
    {pl : Payload} (hmsg : pl.msg = MSG_KEXINIT) : Deed env W pl s (handleKexinit env s pl) := by
  have hq := negotiate_quiet env s pl
  generalize hr : negotiate env s pl = r at hq
  unfold handleKexinit
  rw [hr]
  obtain ⟨res, s₁⟩ := r
  cases res with
  | malformed => exact .acts ((Ssh.Acts.one (.fail _)).before hq.acts)
  | noCommon => exact .acts ((Ssh.Acts.one (.fail _)).before hq.acts)
  | ok =>
      have hver := congrArg SshConn.cliVer hq.conn.eq
      have his := congrArg SshConn.iS hq.conn.eq
      change s₁.c.cliVer = s.c.cliVer at hver
      change s₁.c.iS = s.c.iS at his
      refine .kexinit hst s (.refl s) hmsg (by rw [hr]) ?_
      rw [hr, ← hver, ← his]
      rfl

theorem handleEcdhInit_deed (env : SshEnv) {s : Ssh} (hst : s.c.state = .expectEcdhInit)
    {pl : Payload} (hmsg : pl.msg = MSG_KEX_ECDH_INIT ∨ s.c.discardNext = true) :
    Deed env W pl s (handleEcdhInit env s pl) := by
  unfold handleEcdhInit
  dsimp only
  split
  · exact .acts (Quiet.conn_eq ⟨rfl⟩).acts
  next hdiscard =>
    split
    · exact .acts (.one (.fail _))
    next h5 =>
      split
      · exact .acts ((Ssh.Acts.one (.fail _)).before (Quiet.read s _ _ _).acts)
      next hbad =>
        have hread : s.Quiet (((s.read pl 1 4).read pl 5 32).rngSkip 32) :=
          (Quiet.rngSkip _ 32).before (.of_eq rfl rfl)
        split
        · exact .acts ((Ssh.Acts.one (.fail _)).before hread.acts)
        next hgood =>
          rw [not_or, not_not] at hbad
          obtain ⟨h32, hfits⟩ := hbad
          rw [h32, env.u_small (by omega)] at hfits
          refine .ecdh hst _ hread (hmsg.resolve_right hdiscard) (by omega) h32 _ rfl ?_ rfl
          rw [Bool.not_eq_true] at hgood
          exact hgood

theorem handleServiceRequest_deed (env : SshEnv) {s : Ssh}
    (hst : s.c.state = .expectServiceRequest) (pl : Payload) :
    Deed env W pl s (handleServiceRequest env s pl) := by
  unfold handleServiceRequest
  dsimp only
  split
  · exact .acts (.one (.fail _))
  · split
    · exact .acts ((Ssh.Acts.one (.fail _)).before (Quiet.read s _ _ _).acts)
    next hname =>
      rw [not_or] at hname
      refine .service hst _ ?_ (pl.sub 5 (env.u (pl.u32 1))).bytes ?_ rfl
      · exact (Quiet.conn_eq ⟨rfl⟩).before (.of_eq rfl rfl)
      · have hlen : (pl.sub 5 (env.u (pl.u32 1))).bytes.length = env.u (pl.u32 1) :=
          length_slice _ _ _
        omega

theorem handleSession_acts (env : SshEnv) {s : Ssh} (hst : s.c.state = .session) (pl : Payload)
    (hmsg : pl.msg ≠ MSG_CHANNEL_CLOSE)
    (hW : pl.msg = MSG_CHANNEL_REQUEST → resizes (pl.sub 9 (env.u (pl.u32 5))).bytes → W) :
    Ssh.Acts env W s (handleSession env s pl pl.msg) := by
  unfold handleSession
  dsimp only
  rw [if_neg hmsg]
  split
  · exact handleChannelOpen_acts env hst pl
  · split
    next hmsg => exact handleChannelRequest_acts env hst pl (hW hmsg)
    next =>
      split
      · exact handleChannelData_acts env hst pl
      · split
        · exact handleChannelWindowAdjust_acts env s pl
        · split
          · exact (Quiet.conn_eq ⟨rfl⟩).acts
          · exact .refl

theorem handleSession_deed (env : SshEnv) {s : Ssh} (hst : s.c.state = .session) (pl : Payload)
    (hW : pl.msg = MSG_CHANNEL_REQUEST → resizes (pl.sub 9 (env.u (pl.u32 5))).bytes → W) :
    Deed env W pl s (handleSession env s pl pl.msg) := by
  rcases Classical.em (pl.msg = MSG_CHANNEL_CLOSE) with hmsg | hmsg
  · rw [handleSession, hmsg]
    exact .closed hst s (.refl s) _ rfl rfl
  · exact .acts (handleSession_acts env hst pl hmsg hW)

theorem handleByState_deed (env : SshEnv) (s : Ssh) (pl : Payload)
    (hW : pl.msg = MSG_CHANNEL_REQUEST → resizes (pl.sub 9 (env.u (pl.u32 5))).bytes → W) :
    Deed env W pl s (handleByState env s pl pl.msg) := by
  unfold handleByState
  split
  next hst =>
    split
    · exact .acts (.one (.fail _))
    next hmsg => exact handleKexinit_deed env hst (not_not.mp hmsg)
  next hst =>
    split
    · exact .acts (.one (.fail _))
    next hmsg =>
      refine handleEcdhInit_deed env hst ?_
      rw [not_and_or, not_not, Bool.not_eq_false] at hmsg
      exact hmsg
  next hst =>
    split
    · exact .acts (.one (.fail _))
    · exact .newkeys hst rfl rfl
  next hst =>
    split
    · exact .acts (.one (.fail _))
    · exact handleServiceRequest_deed env hst pl
  next hst =>
    split
    · cases handleUserauthRequest_deed (W := W) env s pl with
      | acts h => exact .acts h
      | rejected s₁ h hs' => exact .rejected hst s₁ h hs'
      | granted s₁ h hs' => exact .granted hst s₁ h hs'
    · exact .acts .refl
  next hst => exact handleSession_deed env hst pl hW
  all_goals exact .acts (.one (.fail _))

/-- Every packet does one of those. -/
theorem handlePacket_deed (env : SshEnv) (s : Ssh) (pl : Payload)
    (hW : pl.msg = MSG_CHANNEL_REQUEST → resizes (pl.sub 9 (env.u (pl.u32 5))).bytes → W) :
    Deed env W pl s (handlePacket env s pl) := by
  unfold handlePacket
  dsimp only
  generalize hs₁ : (if pl.len ≠ 0 then s.read pl 0 1 else s) = s₁
  have hc : s₁.c = s.c := by
    rw [← hs₁]
    split <;> rfl
  have hg : s₁.g = s.g := by
    rw [← hs₁]
    split <;> rfl
  refine Deed.of_eq ?_ hc hg
  split
  · exact .disconnect s₁ (.refl s₁) rfl
  · split
    · exact .acts .refl
    · split
      · exact .acts (handleGlobalRequest_acts env s₁ pl)
      · exact handleByState_deed env s₁ pl hW

/-! ## Runs -/

/-- A property of the connection that more bytes in the buffer, turns of the loop, acts and the
sealing of channel data keep holds along a run. -/
theorem sshRun_keeps {P : SshConn → Prop}
    (hfeed : ∀ c data, P c → P { c with ib := c.ib ++ data })
    (hturn : ∀ s r s', P s.c → s.c.live = true → Turn env s r s' → P s'.c)
    (hacts : ∀ s s' : Ssh, P s.c → s.Acts env True s' → P s'.c)
    (hemit : ∀ (s : Ssh) plain outmax, P s.c → P (sshChannelEmit env s plain outmax).2.c) :
    ∀ (ops : List SshOp) {s s' : Ssh}, P s.c → sshRun env ops s = some s' → P s'.c
  | [], s, s', hP, hrun => by
      cases hrun
      exact hP
  | op :: ops, s, s', hP, hrun => by
      rw [sshRun, Option.bind_eq_some_iff] at hrun
      obtain ⟨s₁, hop, hrest⟩ := hrun
      refine sshRun_keeps hfeed hturn hacts hemit ops ?_ hrest
      cases op with
      | input data beyond fuel =>
          simp only [SshOp.run, sshInput] at hop
          split at hop
          · cases hop
            exact hP
          · split at hop
            · cases hop
              exact hacts s _ hP (.one (.fail _))
            · split at hop
              · cases hop
              · exact inputLoop_keeps hturn beyond fuel 0 _ s₁ (hfeed s.c data hP) hop
      | putc b =>
          have hc : s₁.c = s.c := by
            cases hop
            unfold sshChannelPutc
            repeat' split
            all_goals rfl
          rw [hc]
          exact hP
      | flush =>
          cases hop
          exact hacts s _ hP (sshChannelFlush_acts env s)
      | emit plain outmax =>
          cases hop
          exact hemit s plain outmax hP
      | close =>
          cases hop
          exact hacts s _ hP (sshChannelClose_acts env s)
      | _ =>
          cases hop
          exact hP

end Dossh
