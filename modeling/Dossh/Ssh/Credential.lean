import Dossh.Ssh.Effects

/-!
# Credentials

What a `USERAUTH_REQUEST` must look like to be granted, stated on the bytes of its payload:
as a sequence of SSH strings (RFC 4252 sec 7 and 8), with whatever may follow.  The lemmas
read this off the parsers of the handlers.
-/

namespace Dossh

open Ssh

/-! ## Requests -/

/-- A `password` request with the configured password. -/
def PasswordRequest (env : SshEnv) (payload : List UInt8) : Prop :=
  ∃ user service rest : List UInt8,
    payload = [50] ++ putStr user ++ putStr service ++ putNl "password" ++ [0] ++
      putStr env.password ++ rest

/-- A signed `publickey` request for an authorized key whose signature is accepted over the
string of RFC 4252 sec 7 built from the request. -/
def PublickeyRequest (env : SshEnv) (sessionId payload : List UInt8) : Prop :=
  ∃ (user service blob sigblob rest key sig keyRest sigRest : List UInt8) (flag : UInt8),
    payload = [50] ++ putStr user ++ putStr service ++ putNl "publickey" ++ [flag] ++
      putNl "ssh-ed25519" ++ putStr blob ++ putStr sigblob ++ rest ∧
    flag ≠ 0 ∧
    blob = putNl "ssh-ed25519" ++ putStr key ++ keyRest ∧ key.length = 32 ∧
    key ∈ env.authkeys ∧
    sigblob = putNl "ssh-ed25519" ++ putStr sig ++ sigRest ∧ sig.length = 64 ∧
    env.crypto.ed25519Verify sig key
      (putStr sessionId ++ [50] ++ putStr user ++ putStr service ++ putNl "publickey" ++ [1] ++
        putNl "ssh-ed25519" ++ putStr blob) = true

/-- A request that a box with this configuration grants.  Without a password and without
authorized keys every request is. -/
def Granted (env : SshEnv) (sessionId payload : List UInt8) : Prop :=
  (env.havePassword = false ∧ env.authkeys = []) ∨ PasswordRequest env payload ∨
    PublickeyRequest env sessionId payload

/-! ## Replies -/

namespace Ssh

/-- The connection is authenticated, after a call that did nothing else. -/
def Grants (s s' : Ssh) : Prop :=
  ∃ s₁, s.Tame s₁ ∧ s'.c = { s₁.c with authenticated := true, state := .session }

theorem Grants.before {s s' s'' : Ssh} (h' : s'.Grants s'') (h : s.Tame s') : s.Grants s'' := by
  obtain ⟨s₁, htame, hc⟩ := h'
  exact ⟨s₁, h.trans htame, hc⟩

theorem Tame.closed (s : Ssh) : s.Tame { s with c := { s.c with state := .closed } } :=
  ⟨⟨rfl, rfl, Logs.refl _ s⟩, rfl, .inr (.inr rfl)⟩

theorem Tame.authFails (s : Ssh) (k : Nat) : s.Tame { s with c := { s.c with authFails := k } } :=
  .of_fields rfl rfl rfl rfl rfl

theorem Tame.authUser (s : Ssh) (user : List UInt8) :
    s.Tame { s with c := { s.c with authUser := user } } := .of_fields rfl rfl rfl rfl rfl

end Ssh

theorem sendUserauthSuccess_grants (env : SshEnv) (s : Ssh) :
    s.Grants (sendUserauthSuccess env s) := ⟨_, .sendPacket env s _, rfl⟩

theorem authReject_tame (env : SshEnv) (s : Ssh) (countIt : Bool) :
    s.Tame (authReject env s countIt) := by
  unfold authReject
  dsimp only
  generalize hs' : (if countIt = true then _ else s) = s'
  have hcount : s.Tame s' := by
    rw [← hs']
    split
    · exact .authFails s _
    · exact .refl s
  refine hcount.trans ?_
  split
  · exact (Tame.closed _).before (.sendPacket env s' _)
  · exact .sendPacket env s' _

theorem sendPkOk_tame (env : SshEnv) (s : Ssh) (algo blob : Payload) :
    s.Tame (sendPkOk env s algo blob) := by
  unfold sendPkOk
  dsimp only
  split
  · exact authReject_tame env s true
  · exact (Tame.sendPacket env _ _).before (.of_conn rfl)

/-! ## Parsing -/

/-- A byte in front of the rest of a payload that has room for it. -/
theorem bytes_drop_byte {env : SshEnv} {pl : Payload} {o : Nat} (ho : o ≤ pl.len)
    (hlen : pl.len ≤ SSH_IB_SZ) (h : ¬ env.u (o + 1) > pl.len) :
    pl.bytes.drop o = pl.get o :: pl.bytes.drop (o + 1) := by
  have hlt : o + 1 ≤ pl.len := by
    unfold SSH_IB_SZ at hlen
    rw [env.u_small (by omega)] at h
    omega
  unfold Payload.bytes
  rw [drop_slice, drop_slice]
  have hsucc : pl.len - o = (pl.len - (o + 1)) + 1 := by omega
  rw [hsucc, slice_succ]
  rfl

/-- What a key or signature blob looks like. -/
theorem ed25519FromBlob_bytes {blob x : Payload} {len : Nat}
    (h : ed25519FromBlob blob len = some x) :
    ∃ rest, blob.bytes = putNl "ssh-ed25519" ++ putStr x.bytes ++ rest ∧ x.bytes.length = len := by
  unfold ed25519FromBlob at h
  split at h
  · cases h
  next name o hname =>
    split at h
    · cases h
    next heq =>
      rw [not_not] at heq
      split at h
      · cases h
      next x' o' hx =>
        split at h
        · cases h
        next hlen =>
          cases h
          rw [not_not] at hlen
          have h1 := (rdString_bytes hname).1
          have h2 := (rdString_bytes hx).1
          rw [List.drop_zero, heq, h2] at h1
          refine ⟨_, by rw [h1, putNl, List.append_assoc], ?_⟩
          rw [Payload.bytes, length_slice, hlen]

/-! ## The handlers -/

theorem handlePasswordAuth_cases (env : SshEnv) (s : Ssh) {pl : Payload} {o : Nat}
    (ho : o ≤ pl.len) :
    s.Tame (handlePasswordAuth env s pl o) ∨
    (s.Grants (handlePasswordAuth env s pl o) ∧ (pl.len ≤ SSH_IB_SZ →
      ∃ rest, pl.bytes.drop o = [0] ++ putStr env.password ++ rest)) := by
  unfold handlePasswordAuth
  dsimp only
  split
  · exact .inl (authReject_tame env s true)
  next hroom =>
    split
    · exact .inl ((authReject_tame env _ true).before (.of_conn rfl))
    next hflag =>
      rw [not_not] at hflag
      split
      · exact .inl ((authReject_tame env _ true).before (.of_conn (by simp)))
      next pw o' hpw =>
        generalize hs' : (if pw.len = env.password.length then _ else _) = s'
        have hread : s.Tame s' := by
          rw [← hs']
          split <;> exact .of_conn (by simp)
        split
        next heq =>
          refine .inr ⟨(sendUserauthSuccess_grants env s').before hread,
            fun hlen => ⟨pl.bytes.drop o', ?_⟩⟩
          rw [bytes_drop_byte ho hlen hroom, hflag, (rdString_bytes hpw).1, heq]
          rfl
        next => exact .inl ((authReject_tame env s' true).before hread)

/-- The signed form: the signature blob follows, the key is authorized, and the signature is
accepted. -/
theorem handlePubkeySigned_cases (env : SshEnv) (s : Ssh) (pl : Payload) (o : Nat)
    (user service algo blob key : Payload) :
    s.Tame (handlePubkeySigned env s pl o user service algo blob key) ∨
    (s.Grants (handlePubkeySigned env s pl o user service algo blob key) ∧
      ∃ sigblob sig rest sigRest : List UInt8,
        pl.bytes.drop o = putStr sigblob ++ rest ∧
        sigblob = putNl "ssh-ed25519" ++ putStr sig ++ sigRest ∧ sig.length = 64 ∧
        key.bytes ∈ env.authkeys ∧
        env.crypto.ed25519Verify sig key.bytes
          (pkSignedData s.c.sessionId user.bytes service.bytes algo.bytes blob.bytes) = true) := by
  unfold handlePubkeySigned
  dsimp only
  split
  · exact .inl ((authReject_tame env _ true).before (.of_conn (by simp)))
  next sigblob o' hsigblob =>
    split
    · exact .inl ((authReject_tame env _ true).before (.of_conn (by simp)))
    next rawsig hsig =>
      split
      · exact .inl ((authReject_tame env _ true).before (.of_conn (by simp)))
      next hkey =>
        have hmem : key.bytes ∈ env.authkeys := by
          simpa [authkeyIsAuthorized, List.contains_iff_mem] using hkey
        split
        · exact .inl ((authReject_tame env _ true).before (.of_conn (by simp)))
        next data hdata =>
          split
          next hverify =>
            refine .inr ⟨(sendUserauthSuccess_grants env _).before (.of_conn (by simp)), ?_⟩
            obtain ⟨sigRest, hblob, hlen⟩ := ed25519FromBlob_bytes hsig
            refine ⟨sigblob.bytes, rawsig.bytes, pl.bytes.drop o', sigRest,
              (rdString_bytes hsigblob).1, hblob, hlen, hmem, ?_⟩
            unfold buildPkSignedData at hdata
            dsimp only at hdata
            split at hdata
            · cases hdata
            · simp only [readBlob_conn, readString_conn, Option.some.injEq] at hdata
              rw [hdata]
              exact hverify
          next => exact .inl ((authReject_tame env _ true).before (.of_conn (by simp)))

/-- A probe is answered and grants nothing; the rest is the signed form. -/
theorem handlePubkeyAuth_cases (env : SshEnv) (s : Ssh) {pl : Payload} {o : Nat}
    (ho : o ≤ pl.len) (user service : Payload) :
    s.Tame (handlePubkeyAuth env s pl o user service) ∨
    (s.Grants (handlePubkeyAuth env s pl o user service) ∧ (pl.len ≤ SSH_IB_SZ →
      ∃ (blob sigblob rest key sig keyRest sigRest : List UInt8) (flag : UInt8),
        pl.bytes.drop o = [flag] ++ putNl "ssh-ed25519" ++ putStr blob ++ putStr sigblob ++ rest ∧
        flag ≠ 0 ∧
        blob = putNl "ssh-ed25519" ++ putStr key ++ keyRest ∧ key.length = 32 ∧
        key ∈ env.authkeys ∧
        sigblob = putNl "ssh-ed25519" ++ putStr sig ++ sigRest ∧ sig.length = 64 ∧
        env.crypto.ed25519Verify sig key
          (pkSignedData s.c.sessionId user.bytes service.bytes (ascii "ssh-ed25519") blob) =
            true)) := by
  unfold handlePubkeyAuth
  dsimp only
  split
  · exact .inl (authReject_tame env s true)
  next hroom =>
    split
    · exact .inl ((authReject_tame env _ true).before (.of_conn (by simp)))
    next algo o₁ halgo =>
      split
      · exact .inl ((authReject_tame env _ true).before (.of_conn (by simp)))
      next blob o₂ hblob =>
        generalize hs' : (if algo.len = 11 then _ else _) = s'
        have hread : s'.c = s.c := by
          rw [← hs']
          split <;> simp
        split
        · exact .inl ((authReject_tame env _ true).before (.of_conn hread))
        next hname =>
          rw [not_not] at hname
          split
          · exact .inl ((authReject_tame env _ true).before (.of_conn (by simp [hread])))
          next key hkey =>
            generalize hs'' : (if env.authkeys.isEmpty = true then _ else _) = s''
            have hread' : s''.c = s.c := by
              rw [← hs'']
              split <;> simp [hread]
            split
            · split
              · exact .inl ((authReject_tame env _ true).before (.of_conn hread'))
              · exact .inl ((sendPkOk_tame env _ algo blob).before (.of_conn hread'))
            next hflag =>
              rcases handlePubkeySigned_cases env s'' pl o₂ user service algo blob key with
                htame | ⟨hgrants, sigblob, sig, rest, sigRest, hdrop, hsig, hsiglen, hmem, hver⟩
              · exact .inl (htame.before (.of_conn hread'))
              · obtain ⟨keyRest, hkeyblob, hkeylen⟩ := ed25519FromBlob_bytes hkey
                refine .inr ⟨hgrants.before (.of_conn hread'), fun hlen => ⟨blob.bytes, sigblob,
                  rest, key.bytes, sig, keyRest, sigRest, pl.get o, ?_, hflag, hkeyblob, hkeylen,
                  hmem, hsig, hsiglen, ?_⟩⟩
                · rw [bytes_drop_byte ho hlen hroom, (rdString_bytes halgo).1,
                    (rdString_bytes hblob).1, hdrop, hname]
                  simp [putNl]
                · rw [← hread', ← hname]
                  exact hver

theorem userauthMethod_cases (env : SshEnv) (s : Ssh) {pl : Payload} {o : Nat}
    (ho : o ≤ pl.len) (user service method : Payload)
    (hpl : pl.bytes = [50] ++ putStr user.bytes ++ putStr service.bytes ++ putStr method.bytes ++
      pl.bytes.drop o) :
    s.Tame (userauthMethod env s pl o user service method) ∨
    (s.Grants (userauthMethod env s pl o user service method) ∧ (pl.len ≤ SSH_IB_SZ →
      Granted env s.c.sessionId pl.bytes)) := by
  unfold userauthMethod
  dsimp only
  split
  next hopen =>
    rw [Bool.and_eq_true, Bool.not_eq_true', List.isEmpty_iff] at hopen
    exact .inr ⟨sendUserauthSuccess_grants env s, fun _ => .inl hopen⟩
  next =>
    split
    next hmethod =>
      split
      · exact .inl ((authReject_tame env _ true).before (.of_conn (by simp)))
      · rcases handlePubkeyAuth_cases env (s.readMethod method 9) ho user service with
          htame | ⟨hgrants, hshape⟩
        · exact .inl (htame.before (.of_conn (by simp)))
        · refine .inr ⟨hgrants.before (.of_conn (by simp)), fun hlen => .inr (.inr ?_)⟩
          obtain ⟨blob, sigblob, rest, key, sig, keyRest, sigRest, flag, hdrop, hrest⟩ :=
            hshape hlen
          obtain ⟨hflag, hblob, hkeylen, hmem, hsig, hsiglen, hver⟩ := hrest
          refine ⟨user.bytes, service.bytes, blob, sigblob, rest, key, sig, keyRest, sigRest, flag,
            ?_, hflag, hblob, hkeylen, hmem, hsig, hsiglen, ?_⟩
          · rw [hpl, hdrop, hmethod]
            simp [putNl]
          · rw [readMethod_conn] at hver
            exact hver
    next =>
      generalize hs' : (if env.havePassword = true then _ else _) = s'
      have hread : s'.c = s.c := by
        rw [← hs']
        split <;> simp
      split
      next hmethod =>
        rw [Bool.and_eq_true, decide_eq_true_eq] at hmethod
        rcases handlePasswordAuth_cases env s' ho with htame | ⟨hgrants, hshape⟩
        · exact .inl (htame.before (.of_conn hread))
        · refine .inr ⟨hgrants.before (.of_conn hread), fun hlen => .inr (.inl ?_)⟩
          obtain ⟨rest, hdrop⟩ := hshape hlen
          refine ⟨user.bytes, service.bytes, rest, ?_⟩
          rw [hpl, hdrop, hmethod.2]
          simp [putNl]
      next => exact .inl ((authReject_tame env _ _).before (.of_conn (by simp [hread])))

/-- A `USERAUTH_REQUEST` is granted only with a credential.  The offsets do not wrap in a
packet that fits the buffer. -/
theorem handleUserauthRequest_cases (env : SshEnv) (s : Ssh) {pl : Payload}
    (hmsg : pl.msg = MSG_USERAUTH_REQUEST) :
    s.Tame (handleUserauthRequest env s pl) ∨
    (s.Grants (handleUserauthRequest env s pl) ∧ (pl.len ≤ SSH_IB_SZ →
      Granted env s.c.sessionId pl.bytes)) := by
  unfold handleUserauthRequest
  dsimp only
  split
  · exact .inl ((Tame.fail _ _).before (.of_conn (by simp)))
  next user o₁ huser =>
    split
    · exact .inl ((Tame.fail _ _).before (.of_conn (by simp)))
    next service o₂ hservice =>
      split
      · exact .inl ((Tame.fail _ _).before (.of_conn (by simp)))
      next method o₃ hmethod =>
        obtain ⟨h1, hle1, hlt1⟩ := rdString_bytes huser
        obtain ⟨h2, -, -⟩ := rdString_bytes hservice
        obtain ⟨h3, -, hle⟩ := rdString_bytes hmethod
        have hhead : pl.bytes = [50] ++ pl.bytes.drop 1 := by
          have hpos : pl.len = (pl.len - 1) + 1 := by omega
          have hget : pl.get 0 = 50 := by
            have hne : pl.len ≠ 0 := by omega
            rw [Payload.msg, if_pos hne] at hmsg
            exact hmsg
          unfold Payload.bytes
          rw [drop_slice, hpos, slice_succ]
          show pl.get 0 :: _ = _
          rw [hget]
          rfl
        generalize hk : (if user.len < 63 then user.len else 63) = k
        generalize hs₁ : ((((s.readString pl 1).readString pl o₁).readString pl o₂).read user 0 k)
          = s₁
        have hread : s₁.c = s.c := by
          rw [← hs₁]
          simp
        have hbytes : pl.bytes = [50] ++ putStr user.bytes ++ putStr service.bytes ++
            putStr method.bytes ++ pl.bytes.drop o₃ := by
          rw [h1, h2, h3] at hhead
          simpa using hhead
        have htame := (Tame.authUser s₁ (user.sub 0 k).bytes).before (.of_conn hread)
        rcases userauthMethod_cases env { s₁ with c := { s₁.c with
            authUser := (user.sub 0 k).bytes } } hle user service method hbytes with
          hm | ⟨hgrants, hgranted⟩
        · exact .inl (hm.before htame)
        · refine .inr ⟨hgrants.before htame, ?_⟩
          have hsid : s₁.c.sessionId = s.c.sessionId := by rw [hread]
          rw [← hsid]
          exact hgranted

end Dossh
