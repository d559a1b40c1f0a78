import Dossh.Ssh.Acts

/-!
# How an authentication request is answered

The handlers of `USERAUTH_REQUEST` decide and answer in one go.  Here the decision stands
alone, as a function of the request, the session id and the configuration, and the handlers
are shown to follow it.
-/

namespace Dossh

open Ssh

/-- The answers to a `USERAUTH_REQUEST`. -/
inductive Verdict where
  /-- The request cannot be read, and the connection fails. -/
  | malformed
  /-- `USERAUTH_PK_OK`. -/
  | probed
  | refused (counted : Bool)
  | granted
deriving DecidableEq, Repr

/-! ## The decision -/

def pubkeySignedVerdict (env : SshEnv) (sessionId : List UInt8) (pl : Payload) (o : Nat)
    (user service algo blob key : Payload) : Verdict :=
  match rdString pl o with
  | none => .refused true
  | some (sigblob, _) =>
      match ed25519SigFromBlob sigblob with
      | none => .refused true
      | some rawsig =>
          if !authkeyIsAuthorized env key.bytes then .refused true
          else
            match buildPkSignedData env sessionId user service algo blob with
            | none => .refused true
            | some data =>
                if env.crypto.ed25519Verify rawsig.bytes key.bytes data then .granted
                else .refused true

def pubkeyVerdict (env : SshEnv) (sessionId : List UInt8) (pl : Payload) (o : Nat)
    (user service : Payload) : Verdict :=
  if env.u (o + 1) > pl.len then .refused true
  else
    match rdString pl (o + 1) with
    | none => .refused true
    | some (algo, o₁) =>
        match rdString pl o₁ with
        | none => .refused true
        | some (blob, o₂) =>
            if algo.bytes ≠ ascii "ssh-ed25519" then .refused true
            else
              match ed25519KeyFromBlob blob with
              | none => .refused true
              | some key =>
                  if pl.get o = 0 then
                    if !authkeyIsAuthorized env key.bytes then .refused true
                    else if env.u (1 + 4 + algo.len + 4 + blob.len) > 128 then .refused true
                    else .probed
                  else pubkeySignedVerdict env sessionId pl o₂ user service algo blob key

def passwordVerdict (env : SshEnv) (pl : Payload) (o : Nat) : Verdict :=
  if env.u (o + 1) > pl.len then .refused true
  else if pl.get o ≠ 0 then .refused true
  else
    match rdString pl (o + 1) with
    | none => .refused true
    | some (pw, _) => if pw.bytes = env.password then .granted else .refused true

def methodVerdict (env : SshEnv) (sessionId : List UInt8) (pl : Payload) (o : Nat)
    (user service method : Payload) : Verdict :=
  if !env.havePassword && env.authkeys.isEmpty then .granted
  else if method.bytes = ascii "publickey" then
    if env.authkeys.isEmpty then .refused true else pubkeyVerdict env sessionId pl o user service
  else if env.havePassword && method.bytes = ascii "password" then passwordVerdict env pl o
  else .refused (method.bytes ≠ ascii "none")

def userauthVerdict (env : SshEnv) (sessionId : List UInt8) (pl : Payload) : Verdict :=
  match rdString pl 1 with
  | none => .malformed
  | some (user, o) =>
      match rdString pl o with
      | none => .malformed
      | some (service, o) =>
          match rdString pl o with
          | none => .malformed
          | some (method, o) => methodVerdict env sessionId pl o user service method

/-! ## The handlers follow it -/

/-- Nothing but reading and the name of the user. -/
structure Ssh.Looks (s s' : Ssh) : Prop where
  conn : s'.c = { s.c with authUser := s'.c.authUser }
  shared : s'.g = s.g

/-- The answer the verdict asks for. -/
inductive Verdict.Follows (env : SshEnv) (s s' : Ssh) : Verdict → Prop where
  | malformed (s₁ : Ssh) (h : s.Looks s₁) (why : String) (hs' : s' = s₁.fail why) :
      Follows env s s' .malformed
  | probed (s₁ : Ssh) (h : s.Looks s₁) (algo blob : List UInt8)
      (hs' : s' = s₁.sendPacket env ([MSG_USERAUTH_PK_OK] ++ putStr algo ++ putStr blob)) :
      Follows env s s' .probed
  | refused (s₁ : Ssh) (h : s.Looks s₁) (counted : Bool) (hs' : s' = authReject env s₁ counted) :
      Follows env s s' (.refused counted)
  | granted (s₁ : Ssh) (h : s.Looks s₁) (hs' : s' = sendUserauthSuccess env s₁) :
      Follows env s s' .granted

variable {env : SshEnv} {s s₁ s' : Ssh} {v : Verdict}

theorem Ssh.Looks.of_eq (hc : s'.c = s.c) (hg : s'.g = s.g) : s.Looks s' := ⟨by rw [hc], hg⟩

theorem Ssh.Looks.refl (s : Ssh) : s.Looks s := .of_eq rfl rfl

theorem Ssh.Looks.trans (h : s.Looks s₁) (h' : s₁.Looks s') : s.Looks s' := by
  refine ⟨?_, h'.shared.trans h.shared⟩
  have h₁ := h.conn
  have h₂ := h'.conn
  rw [h₁] at h₂
  exact h₂

theorem Ssh.Looks.quiet (h : s.Looks s') : s.Quiet s' := by
  refine ⟨⟨?_⟩, ?_⟩
  · rw [h.conn]
  · rw [h.shared]

theorem Verdict.Follows.before (h : v.Follows env s₁ s') (hl : s.Looks s₁) :
    v.Follows env s s' := by
  cases h with
  | malformed s₂ h why hs' => exact .malformed s₂ (hl.trans h) why hs'
  | probed s₂ h algo blob hs' => exact .probed s₂ (hl.trans h) algo blob hs'
  | refused s₂ h counted hs' => exact .refused s₂ (hl.trans h) counted hs'
  | granted s₂ h hs' => exact .granted s₂ (hl.trans h) hs'

/-- A refusal after nothing but reading. -/
theorem follows_refused (hc : s₁.c = s.c) (hg : s₁.g = s.g) (counted : Bool) :
    (Verdict.refused counted).Follows env s (authReject env s₁ counted) :=
  .refused s₁ (.of_eq hc hg) counted rfl

theorem follows_granted (hc : s₁.c = s.c) (hg : s₁.g = s.g) :
    Verdict.granted.Follows env s (sendUserauthSuccess env s₁) := .granted s₁ (.of_eq hc hg) rfl

theorem handlePubkeySigned_follows (env : SshEnv) (s : Ssh) (pl : Payload) (o : Nat)
    (user service algo blob key : Payload) :
    (pubkeySignedVerdict env s.c.sessionId pl o user service algo blob key).Follows env s
      (handlePubkeySigned env s pl o user service algo blob key) := by
  unfold pubkeySignedVerdict handlePubkeySigned
  dsimp only
  rcases rdString pl o with _ | ⟨sigblob, o'⟩
  · exact follows_refused (by simp) (by simp) true
  dsimp only
  rcases ed25519SigFromBlob sigblob with _ | rawsig
  · exact follows_refused (by simp) (by simp) true
  dsimp only
  have hsid : ((s.readString pl o).readBlob sigblob).c.sessionId = s.c.sessionId := by simp
  rw [hsid]
  rcases authkeyIsAuthorized env key.bytes with _ | _
  · exact follows_refused (by simp) (by simp) true
  rw [if_neg (by decide), if_neg (by decide)]
  rcases buildPkSignedData env s.c.sessionId user service algo blob with _ | data
  · exact follows_refused (by simp) (by simp) true
  dsimp only
  rcases env.crypto.ed25519Verify rawsig.bytes key.bytes data with _ | _
  · exact follows_refused (by simp) (by simp) true
  · exact follows_granted (by simp) (by simp)

theorem handlePasswordAuth_follows (env : SshEnv) (s : Ssh) (pl : Payload) (o : Nat) :
    (passwordVerdict env pl o).Follows env s (handlePasswordAuth env s pl o) := by
  unfold passwordVerdict handlePasswordAuth
  dsimp only
  rcases Classical.em (env.u (o + 1) > pl.len) with hlen | hlen
  · rw [if_pos hlen, if_pos hlen]
    exact follows_refused rfl rfl true
  rw [if_neg hlen, if_neg hlen]
  rcases Classical.em (pl.get o ≠ 0) with hchange | hchange
  · rw [if_pos hchange, if_pos hchange]
    exact follows_refused (by simp) (by simp) true
  rw [if_neg hchange, if_neg hchange]
  rcases rdString pl (o + 1) with _ | ⟨pw, o'⟩
  · exact follows_refused (by simp) (by simp) true
  dsimp only
  generalize hs₁ : (if pw.len = env.password.length then _ else _) = s₁
  have h₁ : s₁.c = s.c ∧ s₁.g = s.g := by
    rw [← hs₁]
    split <;> exact ⟨by simp, by simp⟩
  rcases Classical.em (pw.bytes = env.password) with hpw | hpw
  · rw [if_pos hpw, if_pos hpw]
    exact follows_granted h₁.1 h₁.2
  · rw [if_neg hpw, if_neg hpw]
    exact follows_refused h₁.1 h₁.2 true

theorem sendPkOk_follows (env : SshEnv) (s : Ssh) (algo blob : Payload) :
    (if env.u (1 + 4 + algo.len + 4 + blob.len) > 128 then Verdict.refused true
      else .probed).Follows env s (sendPkOk env s algo blob) := by
  unfold sendPkOk
  dsimp only
  split
  · exact follows_refused rfl rfl true
  · exact .probed ((s.readAll algo).readAll blob) (.of_eq rfl rfl) _ _ rfl

theorem handlePubkeyAuth_follows (env : SshEnv) (s : Ssh) (pl : Payload) (o : Nat)
    (user service : Payload) : (pubkeyVerdict env s.c.sessionId pl o user service).Follows env s
      (handlePubkeyAuth env s pl o user service) := by
  unfold pubkeyVerdict handlePubkeyAuth
  dsimp only
  rcases Classical.em (env.u (o + 1) > pl.len) with hlen | hlen
  · rw [if_pos hlen, if_pos hlen]
    exact follows_refused rfl rfl true
  rw [if_neg hlen, if_neg hlen]
  rcases rdString pl (o + 1) with _ | ⟨algo, o₁⟩
  · exact follows_refused (by simp) (by simp) true
  dsimp only
  rcases rdString pl o₁ with _ | ⟨blob, o₂⟩
  · exact follows_refused (by simp) (by simp) true
  dsimp only
  generalize hs₁ : (if algo.len = 11 then _ else _) = s₁
  have h₁ : s₁.c = s.c ∧ s₁.g = s.g := by
    rw [← hs₁]
    split <;> exact ⟨by simp, by simp⟩
  rcases Classical.em (algo.bytes ≠ ascii "ssh-ed25519") with halgo | halgo
  · rw [if_pos halgo, if_pos halgo]
    exact follows_refused h₁.1 h₁.2 true
  rw [if_neg halgo, if_neg halgo]
  rcases ed25519KeyFromBlob blob with _ | key
  · exact follows_refused (by simp [h₁.1]) (by simp [h₁.2]) true
  dsimp only
  generalize hs₂ : (if env.authkeys.isEmpty then _ else _) = s₂
  have h₂ : s₂.c = s.c ∧ s₂.g = s.g := by
    rw [← hs₂]
    split <;> exact ⟨by simp [h₁.1], by simp [h₁.2]⟩
  rcases Classical.em (pl.get o = 0) with hprobe | hprobe
  · rw [if_pos hprobe, if_pos hprobe]
    rcases authkeyIsAuthorized env key.bytes with _ | _
    · exact follows_refused h₂.1 h₂.2 true
    · exact (sendPkOk_follows env s₂ algo blob).before (.of_eq h₂.1 h₂.2)
  · rw [if_neg hprobe, if_neg hprobe, ← h₂.1]
    exact (handlePubkeySigned_follows env s₂ pl o₂ user service algo blob key).before
      (.of_eq h₂.1 h₂.2)

theorem userauthMethod_follows (env : SshEnv) (s : Ssh) (pl : Payload) (o : Nat)
    (user service method : Payload) :
    (methodVerdict env s.c.sessionId pl o user service method).Follows env s
      (userauthMethod env s pl o user service method) := by
  have hread : ∀ (s : Ssh) (n : Nat), s.Looks (s.readMethod method n) := fun s n =>
    .of_eq (by simp) (by simp)
  unfold methodVerdict userauthMethod
  dsimp only
  rcases Classical.em ((!env.havePassword && env.authkeys.isEmpty) = true) with hopen | hopen
  · rw [if_pos hopen, if_pos hopen]
    exact follows_granted rfl rfl
  rw [if_neg hopen, if_neg hopen]
  rcases Classical.em (method.bytes = ascii "publickey") with hpk | hpk
  · rw [if_pos hpk, if_pos hpk]
    rcases env.authkeys.isEmpty with _ | _
    · have hsid : (s.readMethod method 9).c.sessionId = s.c.sessionId := by simp
      rw [← hsid]
      exact (handlePubkeyAuth_follows env _ pl o user service).before (hread s 9)
    · exact follows_refused (by simp) (by simp) true
  rw [if_neg hpk, if_neg hpk]
  generalize hs₁ : (if env.havePassword = true then _ else _) = s₁
  have h₁ : s.Looks s₁ := by
    rw [← hs₁]
    split
    · exact (hread s 9).trans (hread _ 8)
    · exact hread s 9
  rcases Classical.em ((env.havePassword && method.bytes = ascii "password") = true) with
    hpw | hpw
  · rw [if_pos hpw, if_pos hpw]
    exact (handlePasswordAuth_follows env s₁ pl o).before h₁
  · rw [if_neg hpw, if_neg hpw]
    exact .refused _ (h₁.trans (hread s₁ 4)) _ rfl

/-- A request is answered as decided. -/
theorem handleUserauthRequest_follows (env : SshEnv) (s : Ssh) (pl : Payload) :
    (userauthVerdict env s.c.sessionId pl).Follows env s (handleUserauthRequest env s pl) := by
  unfold userauthVerdict handleUserauthRequest
  dsimp only
  rcases rdString pl 1 with _ | ⟨user, o⟩
  · exact .malformed _ (.of_eq (by simp) (by simp)) _ rfl
  dsimp only
  rcases rdString pl o with _ | ⟨service, o₁⟩
  · exact .malformed _ (.of_eq (by simp) (by simp)) _ rfl
  dsimp only
  rcases rdString pl o₁ with _ | ⟨method, o₂⟩
  · exact .malformed _ (.of_eq (by simp) (by simp)) _ rfl
  dsimp only
  generalize hs₁ : (((s.readString pl 1).readString pl o).readString pl o₁).read user 0 _ = s₁
  have h₁ : s₁.c = s.c ∧ s₁.g = s.g := by
    rw [← hs₁]
    exact ⟨by simp, by simp⟩
  generalize Payload.bytes _ = name
  have hlook : s.Looks { s₁ with c := { s₁.c with authUser := name } } := by
    refine ⟨?_, h₁.2⟩
    rw [h₁.1]
  have hsid : s.c.sessionId = ({ s₁ with c := { s₁.c with authUser := name } } : Ssh).c.sessionId := by
    rw [h₁.1]
  rw [hsid]
  exact (userauthMethod_follows env _ pl o₂ user service method).before hlook

end Dossh
