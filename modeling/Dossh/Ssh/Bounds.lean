import Dossh.Ssh.Run

/-!
# The handlers stay inside the payload

Which bytes of its payload a handler reads, on the DOS build with its 16-bit `unsigned`.

A check `o + n > plen` lets two kinds of sums through: those that are at most `plen`, and
those that wrap and are at most `plen` behind it (`WrapsInto`).  `USERAUTH_REQUEST` goes
through `rd_string`, which does not add and is never deceived.  Four other handlers are,
each for its own range of length fields, and this module says exactly when.
-/

namespace Dossh

open Ssh

/-! ## Ranges -/

/-- All these ranges end at or before `n`. -/
def Within (n : Nat) (reads : List (Nat × Nat)) : Prop := ∀ r ∈ reads, r.2 = 0 ∨ r.1 + r.2 ≤ n

@[simp] theorem within_nil (n : Nat) : Within n [] := by simp [Within]

@[simp] theorem within_cons (n : Nat) (r : Nat × Nat) (reads : List (Nat × Nat)) :
    Within n (r :: reads) ↔ (r.2 = 0 ∨ r.1 + r.2 ≤ n) ∧ Within n reads := by
  simp [Within]

@[simp] theorem within_append (n : Nat) (l₁ l₂ : List (Nat × Nat)) :
    Within n (l₁ ++ l₂) ↔ Within n l₁ ∧ Within n l₂ := by
  simp [Within, or_imp, forall_and]

/-- The payload lies in front of `n`. -/
def Payload.Below (p : Payload) (n : Nat) : Prop := p.base + p.len ≤ n

/-- Everything read so far lies in front of `n`. -/
def Ssh.Inside (n : Nat) (s : Ssh) : Prop := Within n s.reads

theorem Ssh.Inside.of_reads {n : Nat} {s s' : Ssh} (h : s.Inside n) (hr : s'.reads = s.reads) :
    s'.Inside n := by
  rw [Inside, hr]
  exact h

namespace Ssh

@[simp] theorem read_reads (s : Ssh) (p : Payload) (o n : Nat) :
    (s.read p o n).reads = (p.base + o, n) :: s.reads := rfl

@[simp] theorem readAll_reads (s : Ssh) (p : Payload) :
    (s.readAll p).reads = (p.base, p.len) :: s.reads := rfl

@[simp] theorem fail_reads (s : Ssh) (why : String) : (s.fail why).reads = s.reads := by
  unfold fail
  split <;> rfl

@[simp] theorem rngSkip_reads (s : Ssh) (n : Nat) : (s.rngSkip n).reads = s.reads := rfl

@[simp] theorem obAppend_reads (env : SshEnv) (s : Ssh) (d : List UInt8) :
    (s.obAppend env d).reads = s.reads := by
  unfold obAppend
  split
  · exact fail_reads s _
  · rfl

@[simp] theorem framed_reads (s : Ssh) (encrypted : Bool) (payload bytes : List UInt8) :
    (s.framed encrypted payload bytes).reads = s.reads := rfl

@[simp] theorem sendPacket_reads (env : SshEnv) (s : Ssh) (payload : List UInt8) :
    (s.sendPacket env payload).reads = s.reads := by
  unfold sendPacket
  split
  · unfold sendEnc
    split
    · simp
    · simp [aeadSeal]
  · simp [sendUnenc]

end Ssh

/-! ## Sums that wrap -/

/-- The sum wraps, and what is left of it passes for an offset inside the payload. -/
def WrapsInto (plen o n : Nat) : Prop := 65536 ≤ o + n ∧ o + n ≤ 65536 + plen

section

variable {env : SshEnv} {pl : Payload} {s : Ssh}

theorem SshEnv.u_dos (hdos : env.build = .dos) (x : Nat) : env.u x = x % 65536 := by
  rw [SshEnv.u, hdos]
  rfl

/-- What the check `o + n > plen` lets through. -/
theorem u_add_le_iff (hdos : env.build = .dos) {plen o n : Nat} (hplen : plen ≤ SSH_IB_SZ)
    (ho : o < 65536) (hn : n < 65536) :
    env.u (o + n) ≤ plen ↔ o + n ≤ plen ∨ WrapsInto plen o n := by
  unfold SSH_IB_SZ at hplen
  rw [env.u_dos hdos, WrapsInto]
  omega

/-! ## Reading -/

/-- Reading one more range. -/
theorem inside_read_iff {n o k : Nat} :
    (s.read pl o k).Inside n ↔ (k = 0 ∨ pl.base + o + k ≤ n) ∧ s.Inside n := by
  simp [Inside]

theorem read_inside {n o k : Nat} (hpl : pl.Below n) (hk : o + k ≤ pl.len) (hs : s.Inside n) :
    (s.read pl o k).Inside n := by
  unfold Payload.Below at hpl
  exact inside_read_iff.mpr ⟨.inr (by omega), hs⟩

/-! ## Authentication -/

theorem rdString_below {n o o' : Nat} {str : Payload} (h : rdString pl o = some (str, o'))
    (hpl : pl.Below n) : str.Below n ∧ o' ≤ pl.len := by
  unfold rdString at h
  split at h
  · cases h
  next hroom =>
    dsimp only at h
    split at h
    · cases h
    · cases h
      unfold Payload.Below Payload.sub at *
      dsimp only at *
      omega

theorem readString_inside {n : Nat} (hpl : pl.Below n) (hs : s.Inside n) (o : Nat) :
    (s.readString pl o).Inside n := by
  unfold readString
  split
  · exact hs
  · exact read_inside hpl (by omega) hs

theorem readAll_inside {n : Nat} (hpl : pl.Below n) (hs : s.Inside n) :
    (s.readAll pl).Inside n :=
  read_inside hpl (by omega) hs

theorem readMethod_inside {n : Nat} (hpl : pl.Below n) (hs : s.Inside n) (k : Nat) :
    (s.readMethod pl k).Inside n := by
  unfold readMethod
  split
  · exact readAll_inside hpl hs
  · exact hs

@[simp] theorem authReject_reads (countIt : Bool) :
    (authReject env s countIt).reads = s.reads := by
  unfold authReject
  generalize hs₁ : (if countIt then
    { s with c := { s.c with authFails := env.u (s.c.authFails + 1) } } else s) = s₁
  have hr : s₁.reads = s.reads := by
    rw [← hs₁]
    split <;> rfl
  dsimp only
  split
  · simp [sendDisconnect, hr]
  · simp [sendUserauthFailure, hr]

@[simp] theorem sendUserauthSuccess_reads : (sendUserauthSuccess env s).reads = s.reads := by
  simp [sendUserauthSuccess]

theorem readBlob_inside {n : Nat} (hpl : pl.Below n) (hs : s.Inside n) :
    (s.readBlob pl).Inside n := by
  have h₁ := readString_inside hpl hs 0
  unfold readBlob
  dsimp only
  split
  · exact h₁
  next name o heq =>
    split
    · exact h₁
    · have h₂ := readAll_inside (rdString_below heq hpl).1 h₁
      split
      · exact h₂
      · exact readString_inside hpl h₂ o

theorem ed25519FromBlob_below {n len : Nat} {x : Payload} (h : ed25519FromBlob pl len = some x)
    (hpl : pl.Below n) : x.Below n := by
  unfold ed25519FromBlob at h
  split at h
  · cases h
  next name o heq =>
    split at h
    · cases h
    · split at h
      · cases h
      next y o' heq' =>
        split at h
        · cases h
        · cases h
          exact (rdString_below heq' hpl).1

theorem sendPkOk_inside {n : Nat} {algo blob : Payload} (halgo : algo.Below n)
    (hblob : blob.Below n) (hs : s.Inside n) :
    (sendPkOk env s algo blob).Inside n := by
  unfold sendPkOk
  split
  · exact hs.of_reads (by simp)
  · exact (readAll_inside hblob (readAll_inside halgo hs)).of_reads (sendPacket_reads _ _ _)

theorem handlePubkeySigned_inside {n o : Nat} {user service algo blob key : Payload}
    (hpl : pl.Below n) (huser : user.Below n) (hservice : service.Below n) (halgo : algo.Below n)
    (hblob : blob.Below n) (hkey : key.Below n) (hs : s.Inside n) :
    (handlePubkeySigned env s pl o user service algo blob key).Inside n := by
  have h₁ := readString_inside hpl hs o
  unfold handlePubkeySigned
  dsimp only
  split
  · exact h₁.of_reads (by simp)
  next sigblob o' heq =>
    have hsig := (rdString_below heq hpl).1
    have h₂ := readBlob_inside hsig h₁
    split
    · exact h₂.of_reads (by simp)
    next rawsig hraw =>
      split
      · exact h₂.of_reads (by simp)
      · split
        · exact h₂.of_reads (by simp)
        · have h₃ := readAll_inside hkey (readAll_inside (ed25519FromBlob_below hraw hsig)
            (readAll_inside hblob (readAll_inside halgo (readAll_inside hservice
              (readAll_inside huser h₂)))))
          split
          · exact h₃.of_reads (by simp)
          · exact h₃.of_reads (by simp)

/-- The flag byte of a request lies in front of the end: `o` comes from `rd_string`, so the
sum does not wrap. -/
theorem readFlag_inside {n o : Nat} (hpl : pl.Below n) (hlen : pl.len ≤ SSH_IB_SZ)
    (ho : o ≤ pl.len) (hroom : ¬ env.u (o + 1) > pl.len) (hs : s.Inside n) :
    (s.read pl o 1).Inside n := by
  unfold SSH_IB_SZ at hlen
  rw [env.u_small (by omega)] at hroom
  exact read_inside hpl (by omega) hs

theorem handlePubkeyAuth_inside {n o : Nat} {user service : Payload} (hpl : pl.Below n)
    (hlen : pl.len ≤ SSH_IB_SZ) (ho : o ≤ pl.len) (huser : user.Below n)
    (hservice : service.Below n) (hs : s.Inside n) :
    (handlePubkeyAuth env s pl o user service).Inside n := by
  unfold handlePubkeyAuth
  split
  · exact hs.of_reads (by simp)
  next hroom =>
    have h₁ := readString_inside hpl (readFlag_inside hpl hlen ho hroom hs) (o + 1)
    dsimp only
    split
    · exact h₁.of_reads (by simp)
    next algo o₁ halgo =>
      have h₂ := readString_inside hpl h₁ o₁
      have halgo' := (rdString_below halgo hpl).1
      split
      · exact h₂.of_reads (by simp)
      next blob o₂ hblob =>
        have hblob' := (rdString_below hblob hpl).1
        generalize hs₃ : (if algo.len = 11 then
          ((((s.read pl o 1).readString pl (o + 1)).readString pl o₁).readAll algo) else _) = s₃
        have h₃ : s₃.Inside n := by
          rw [← hs₃]
          split
          · exact readAll_inside halgo' h₂
          · exact h₂
        split
        · exact h₃.of_reads (by simp)
        · have h₄ := readBlob_inside hblob' h₃
          split
          · exact h₄.of_reads (by simp)
          next key hkey =>
            have hkey' := ed25519FromBlob_below hkey hblob'
            generalize hs₅ : (if env.authkeys.isEmpty then s₃.readBlob blob else _) = s₅
            have h₅ : s₅.Inside n := by
              rw [← hs₅]
              split
              · exact h₄
              · exact readAll_inside hkey' h₄
            split
            · split
              · exact h₅.of_reads (by simp)
              · exact sendPkOk_inside halgo' hblob' h₅
            · exact handlePubkeySigned_inside hpl huser hservice halgo' hblob' hkey' h₅

theorem handlePasswordAuth_inside {n o : Nat} (hpl : pl.Below n) (hlen : pl.len ≤ SSH_IB_SZ)
    (ho : o ≤ pl.len) (hs : s.Inside n) :
    (handlePasswordAuth env s pl o).Inside n := by
  unfold handlePasswordAuth
  split
  · exact hs.of_reads (by simp)
  next hroom =>
    have h₁ := readFlag_inside hpl hlen ho hroom hs
    dsimp only
    split
    · exact h₁.of_reads (by simp)
    · have h₂ := readString_inside hpl h₁ (o + 1)
      split
      · exact h₂.of_reads (by simp)
      next pw o' heq =>
        generalize hs₃ : (if pw.len = env.password.length then _ else _) = s₃
        have h₃ : s₃.Inside n := by
          rw [← hs₃]
          split
          · exact readAll_inside (rdString_below heq hpl).1 h₂
          · exact h₂
        split
        · exact h₃.of_reads (by simp)
        · exact h₃.of_reads (by simp)

theorem userauthMethod_inside {n o : Nat} {user service method : Payload} (hpl : pl.Below n)
    (hlen : pl.len ≤ SSH_IB_SZ) (ho : o ≤ pl.len) (huser : user.Below n)
    (hservice : service.Below n) (hmethod : method.Below n) (hs : s.Inside n) :
    (userauthMethod env s pl o user service method).Inside n := by
  unfold userauthMethod
  split
  · exact hs.of_reads (by simp)
  · have h₁ := readMethod_inside hmethod hs 9
    dsimp only
    split
    · split
      · exact h₁.of_reads (by simp)
      · exact handlePubkeyAuth_inside hpl hlen ho huser hservice h₁
    · generalize hs₂ : (if env.havePassword then _ else _) = s₂
      have h₂ : s₂.Inside n := by
        rw [← hs₂]
        split
        · exact readMethod_inside hmethod h₁ 8
        · exact h₁
      split
      · exact handlePasswordAuth_inside hpl hlen ho h₂
      · exact (readMethod_inside hmethod h₂ 4).of_reads (authReject_reads _)

/-- A request for authentication is read inside its payload. -/
theorem handleUserauthRequest_inside {n : Nat} (hpl : pl.Below n) (hlen : pl.len ≤ SSH_IB_SZ)
    (hs : s.Inside n) : (handleUserauthRequest env s pl).Inside n := by
  have h₁ := readString_inside hpl hs 1
  unfold handleUserauthRequest
  dsimp only
  split
  · exact h₁.of_reads (by simp)
  next user o₁ huser =>
    have h₂ := readString_inside hpl h₁ o₁
    have huser' := (rdString_below huser hpl).1
    split
    · exact h₂.of_reads (by simp)
    next service o₂ hservice =>
      have h₃ := readString_inside hpl h₂ o₂
      split
      · exact h₃.of_reads (by simp)
      next method o₃ hmethod =>
        have hmethod' := rdString_below hmethod hpl
        have h₄ := read_inside (o := 0) (k := if user.len < 63 then user.len else 63) huser'
          (by split <;> omega) h₃
        exact userauthMethod_inside hpl hlen hmethod'.2 huser' (rdString_below hservice hpl).1
          hmethod'.1 (h₄.of_reads rfl)

/-! ## Handlers that are not deceived -/

variable {n : Nat}

theorem SshEnv.u_le_dos (hdos : env.build = .dos) (x : Nat) : env.u x < 65536 := by
  rw [env.u_dos hdos]
  exact Nat.mod_lt _ (by decide)

@[simp] theorem ecdhReply_reads (qC qS raw : List UInt8) :
    (ecdhReply env s qC qS raw).reads = s.reads := by
  simp [ecdhReply]

/-- The length of the public value must be 32, so the sum cannot wrap. -/
theorem handleEcdhInit_inside (hpl : pl.Below n) (hs : s.Inside n) :
    (handleEcdhInit env s pl).Inside n := by
  unfold handleEcdhInit
  dsimp only
  split
  · exact hs.of_reads rfl
  · split
    · exact hs.of_reads (by simp)
    next h5 =>
      have h₁ := read_inside (o := 1) (k := 4) hpl (by omega) hs
      split
      · exact h₁.of_reads (by simp)
      next hq =>
        rw [not_or, not_not] at hq
        rw [hq.1] at hq
        have hu : env.u (1 + 4 + 32) = 37 := env.u_small (by omega)
        have h₂ := read_inside (o := 5) (k := 32) hpl (by omega) h₁
        split
        · exact h₂.of_reads (by simp)
        · exact h₂.of_reads (by simp)

/-- A name of fewer than 64 bytes does not wrap the sum. -/
theorem handleServiceRequest_inside (hpl : pl.Below n) (hs : s.Inside n) :
    (handleServiceRequest env s pl).Inside n := by
  unfold handleServiceRequest
  dsimp only
  split
  · exact hs.of_reads (by simp)
  next h5 =>
    have h₁ := read_inside (o := 1) (k := 4) hpl (by omega) hs
    split
    · exact h₁.of_reads (by simp)
    next hname =>
      rw [not_or] at hname
      have hu : env.u (1 + 4 + env.u (pl.u32 1)) = 1 + 4 + env.u (pl.u32 1) :=
        env.u_small (by omega)
      have h₂ := read_inside (o := 5) (k := env.u (pl.u32 1)) hpl (by omega) h₁
      exact h₂.of_reads (sendPacket_reads _ _ _)

theorem handleChannelWindowAdjust_inside (hpl : pl.Below n) (hs : s.Inside n) :
    (handleChannelWindowAdjust s pl).Inside n := by
  unfold handleChannelWindowAdjust
  dsimp only
  split
  · exact hs
  · exact (read_inside (o := 5) (k := 4) hpl (by omega) hs).of_reads rfl

/-- The offset may wrap, but it is compared as it is used. -/
theorem handleGlobalRequest_inside (hpl : pl.Below n) (hs : s.Inside n) :
    (handleGlobalRequest env s pl).Inside n := by
  unfold handleGlobalRequest
  have hu : env.u (1 + 4) = 5 := env.u_small (by omega)
  dsimp only
  split
  · exact hs
  next h5 =>
    have h₁ := read_inside (o := 1) (k := 4) hpl (by omega) hs
    split
    next ho =>
      have h₂ := read_inside (o := env.u (1 + 4 + env.u (pl.u32 1))) (k := 1) hpl ho h₁
      split
      · exact h₂.of_reads (by simp)
      · exact h₂
    next => exact h₁

/-! ## Channel messages -/

/-- `handle_channel_open` takes the three words behind the type for part of the payload. -/
def OpenOverreads (env : SshEnv) (pl : Payload) : Prop :=
  5 ≤ pl.len ∧ WrapsInto pl.len (env.u (5 + env.u (pl.u32 1))) 12

@[simp] theorem channelOpenReply_reads (isSession : Bool) (sender iwin maxp : Nat) :
    (channelOpenReply env s isSession sender iwin maxp).reads = s.reads := by
  unfold channelOpenReply
  split <;> simp

theorem handleChannelOpen_inside_iff (hdos : env.build = .dos) (hbase : pl.base = 0)
    (hlen : pl.len ≤ SSH_IB_SZ) (hs : s.Inside pl.len) :
    (handleChannelOpen env s pl).Inside pl.len ↔ ¬ OpenOverreads env pl := by
  have hpl : pl.Below pl.len := by
    unfold Payload.Below
    omega
  have hu : env.u (1 + 4) = 5 := env.u_small (by omega)
  unfold handleChannelOpen OpenOverreads
  dsimp only
  generalize env.u (pl.u32 1) = tlen
  have ho7 : tlen = 7 → env.u (5 + tlen) = 12 := by
    rintro rfl
    exact env.u_small (by omega)
  have ho := env.u_le_dos hdos (5 + tlen)
  generalize env.u (5 + tlen) = o at *
  have hroom := u_add_le_iff hdos hlen ho (n := 12) (by omega)
  split
  next h5 => exact iff_of_true (hs.of_reads (by simp)) fun h => by omega
  next h5 =>
    have h₁ := read_inside (o := 1) (k := 4) hpl (by omega) hs
    split
    next hbad =>
      refine iff_of_true (h₁.of_reads (by simp)) fun h => ?_
      have := hroom.mpr (.inr h.2)
      omega
    next hok =>
      rw [Nat.not_lt, hroom] at hok
      unfold SSH_IB_SZ at hlen
      unfold WrapsInto at hok ⊢
      rcases hok with hfits | hwraps
      · have h₂ := read_inside (o := env.u (o + 8)) (k := 4) hpl
          (by rw [env.u_small (by omega)]; omega)
          (read_inside (o := env.u (o + 4)) (k := 4) hpl (by rw [env.u_small (by omega)]; omega)
            (read_inside (o := o) (k := 4) hpl (by omega) h₁))
        refine iff_of_true ?_ (by omega)
        refine Inside.of_reads ?_ (channelOpenReply_reads _ _ _ _)
        split
        next h7 =>
          simp only [Bool.and_eq_true, decide_eq_true_eq] at h7
          have h12 := ho7 h7.2
          have hname : (pl.sub 5 tlen).Below pl.len := by
            simp only [Payload.Below, Payload.sub]
            omega
          exact readAll_inside hname h₂
        next => exact h₂
      · refine iff_of_false (fun h => ?_) (by omega)
        -- the first of the three words is far behind the end
        have h₂ := h.of_reads (channelOpenReply_reads _ _ _ _).symm
        have h₃ : ((((s.read pl 1 4).read pl o 4).read pl (env.u (o + 4)) 4).read pl
            (env.u (o + 8)) 4).Inside pl.len := by
          split at h₂
          · exact (inside_read_iff.mp h₂).2
          · exact h₂
        have := (inside_read_iff.mp (inside_read_iff.mp (inside_read_iff.mp h₃).2).2).1
        omega

/-- A terminal size is read where the payload has one, unless its end wraps. -/
theorem readWinsize_inside_iff (hdos : env.build = .dos) (hbase : pl.base = 0)
    (hlen : pl.len ≤ SSH_IB_SZ) {o : Nat} (ho : o < 65536) (hs : s.Inside pl.len) :
    (readWinsize env s pl o).Inside pl.len ↔ ¬ WrapsInto pl.len o 8 := by
  have hpl : pl.Below pl.len := by
    unfold Payload.Below
    omega
  have hroom := u_add_le_iff hdos hlen ho (n := 8) (by omega)
  unfold SSH_IB_SZ at hlen
  unfold readWinsize
  dsimp only
  split
  next hok =>
    rw [hroom] at hok
    unfold WrapsInto at hok ⊢
    rcases hok with hfits | hwraps
    · have h₂ := read_inside (o := o + 4) (k := 4) hpl (by omega)
        (read_inside (o := o) (k := 4) hpl (by omega) hs)
      exact iff_of_true (h₂.of_reads rfl) (by omega)
    · refine iff_of_false (fun h => ?_) (by omega)
      have h₂ : ((s.read pl o 4).read pl (o + 4) 4).Inside pl.len := h.of_reads rfl
      have := (inside_read_iff.mp (inside_read_iff.mp h₂).2).1
      omega
  next hbad =>
    refine iff_of_true hs fun h => ?_
    exact hbad (hroom.mpr (.inr h))

/-- `handle_channel_request` takes `want_reply` for part of the payload, or behind the
terminal name of a `pty-req` the terminal size. -/
def RequestOverreads (env : SshEnv) (pl : Payload) : Prop :=
  9 ≤ pl.len ∧ (WrapsInto pl.len (env.u (9 + env.u (pl.u32 5))) 1 ∨
    ((pl.sub 9 (env.u (pl.u32 5))).bytes = ascii "pty-req" ∧ 21 ≤ pl.len ∧
      WrapsInto pl.len (env.u (21 + env.u (pl.u32 17))) 8))

/-- The branches on the request type only read more. -/
theorem inside_of_channelRequest {rtype : Payload} {o n : Nat}
    (h : (channelRequest env s pl rtype o).2.Inside n) : s.Inside n := by
  have hwin : ∀ (s : Ssh) (o : Nat), (readWinsize env s pl o).Inside n → s.Inside n := by
    intro s o h
    unfold readWinsize at h
    dsimp only at h
    split at h
    · have h' : ((s.read pl o 4).read pl (o + 4) 4).Inside n := h.of_reads rfl
      exact (inside_read_iff.mp (inside_read_iff.mp h').2).2
    · exact h
  generalize hr : channelRequest env s pl rtype o = r at h
  unfold channelRequest at hr
  dsimp only at hr
  generalize hs₁ : (if rtype.len = 7 ∨ rtype.len = 5 ∨ rtype.len = 4 ∨ rtype.len = 13 then
    s.readAll rtype else s) = s₁ at hr
  have hback : s₁.Inside n → s.Inside n := by
    rw [← hs₁]
    intro h
    split at h
    · exact (inside_read_iff.mp h).2
    · exact h
  apply hback
  split at hr
  · subst hr
    generalize hs₂ : (if env.u (o + 4) ≤ pl.len then readWinsize env (s₁.read pl o 4) pl
      (env.u (o + 4 + env.u (pl.u32 o))) else s₁) = s₂ at h
    have h₂ : s₂.Inside n := h
    rw [← hs₂] at h₂
    split at h₂
    · exact (inside_read_iff.mp (hwin _ _ h₂)).2
    · exact h₂
  · split at hr
    · subst hr
      exact h
    · split at hr
      · subst hr
        exact hwin _ _ h
      · subst hr
        exact h

theorem length_of_sub_bytes {o n : Nat} {name : List UInt8} (h : (pl.sub o n).bytes = name) :
    n = name.length := by
  rw [← h]
  simp [Payload.bytes, Payload.sub]

/-- A request type that the code knows lies inside the payload. -/
theorem channelRequest_inside_iff (hdos : env.build = .dos) (hbase : pl.base = 0)
    (hlen : pl.len ≤ SSH_IB_SZ) {rtlen o : Nat} (ho : o < 65536)
    (hr : rtlen ≤ 13 → o = 10 + rtlen ∧ o ≤ pl.len) (hs : s.Inside pl.len) :
    (channelRequest env s pl (pl.sub 9 rtlen) o).2.Inside pl.len ↔
      ¬ ((pl.sub 9 rtlen).bytes = ascii "pty-req" ∧ 21 ≤ pl.len ∧
        WrapsInto pl.len (env.u (21 + env.u (pl.u32 17))) 8) := by
  have hpl : pl.Below pl.len := by
    unfold Payload.Below
    omega
  generalize hreq : channelRequest env s pl (pl.sub 9 rtlen) o = r
  unfold channelRequest at hreq
  dsimp only at hreq
  generalize hs₁ : (if (pl.sub 9 rtlen).len = 7 ∨ (pl.sub 9 rtlen).len = 5 ∨
    (pl.sub 9 rtlen).len = 4 ∨ (pl.sub 9 rtlen).len = 13 then s.readAll (pl.sub 9 rtlen)
    else s) = s₁ at hreq
  have h₁ : s₁.Inside pl.len := by
    rw [← hs₁]
    split
    next hknown =>
      have hname : (pl.sub 9 rtlen).Below pl.len := by
        simp only [Payload.Below, Payload.sub] at hknown ⊢
        omega
      exact readAll_inside hname hs
    next => exact hs
  split at hreq
  next hpty =>
    have h7 : rtlen = 7 := length_of_sub_bytes hpty
    obtain ⟨rfl, ho17⟩ := hr (by omega)
    subst h7
    have h21 : env.u (10 + 7 + 4) = 21 := env.u_small (by omega)
    rw [h21] at hreq
    subst hreq
    generalize hs₂ : (if 21 ≤ pl.len then readWinsize env (s₁.read pl (10 + 7) 4) pl
      (env.u (10 + 7 + 4 + env.u (pl.u32 (10 + 7)))) else s₁) = s₂
    refine Iff.trans ⟨fun h => h, fun h => h⟩ (b := s₂.Inside pl.len) ?_
    rw [← hs₂]
    split
    next hok =>
      have h₂ := read_inside (o := 17) (k := 4) hpl (by omega) h₁
      have hwin := readWinsize_inside_iff hdos hbase hlen
        (env.u_le_dos hdos (21 + env.u (pl.u32 17))) h₂
      refine hwin.trans ?_
      simp [hpty, hok]
    next hbad => exact iff_of_true h₁ fun h => hbad h.2.1
  next hpty =>
    refine iff_of_true ?_ fun h => hpty h.1
    split at hreq
    · subst hreq
      exact h₁
    · split at hreq
      next hwc =>
        have h13 : rtlen = 13 := length_of_sub_bytes hwc
        obtain ⟨rfl, ho23⟩ := hr (by omega)
        subst hreq
        refine (readWinsize_inside_iff hdos hbase hlen ho h₁).mpr fun h => ?_
        unfold WrapsInto at h
        omega
      next =>
        subst hreq
        exact h₁

theorem handleChannelRequest_inside_iff (hdos : env.build = .dos) (hbase : pl.base = 0)
    (hlen : pl.len ≤ SSH_IB_SZ) (hs : s.Inside pl.len) :
    (handleChannelRequest env s pl).Inside pl.len ↔ ¬ RequestOverreads env pl := by
  have hpl : pl.Below pl.len := by
    unfold Payload.Below
    omega
  have hu5 : env.u (1 + 4) = 5 := env.u_small (by omega)
  have hu9 : env.u (5 + 4) = 9 := env.u_small (by omega)
  unfold handleChannelRequest RequestOverreads
  dsimp only
  have hrt := env.u_le_dos hdos (pl.u32 5)
  generalize env.u (pl.u32 5) = rtlen at *
  have ho := env.u_le_dos hdos (9 + rtlen)
  have hoeq := env.u_dos hdos (9 + rtlen)
  generalize env.u (9 + rtlen) = o at *
  have hroom := u_add_le_iff hdos hlen ho (n := 1) (by omega)
  have ho1 := env.u_dos hdos (o + 1)
  split
  next => exact iff_of_true hs fun h => by omega
  next =>
    split
    next => exact iff_of_true hs fun h => by omega
    next h9 =>
      have h₁ := read_inside (o := 5) (k := 4) hpl (by omega) hs
      unfold SSH_IB_SZ at hlen
      split
      next hbad =>
        refine iff_of_true h₁ fun h => ?_
        rcases h.2 with hwraps | ⟨hpty, h21, -⟩
        · have := hroom.mpr (.inr hwraps)
          omega
        · have h7 : rtlen = 7 := length_of_sub_bytes hpty
          omega
      next hok =>
        rw [Nat.not_lt, hroom] at hok
        have hreply : ∀ (r : Bool × Ssh) (w t : UInt8),
            (if w ≠ 0 then chanReply env r.2 t else r.2).reads = r.2.reads := by
          intro r w t
          split
          · exact sendPacket_reads _ _ _
          · rfl
        refine Iff.trans ⟨fun h => h.of_reads (hreply _ _ _).symm,
          fun h => h.of_reads (hreply _ _ _)⟩ ?_
        rcases hok with hfits | hwraps
        · have h₂ := read_inside (o := o) (k := 1) hpl hfits h₁
          rw [channelRequest_inside_iff hdos hbase hlen (env.u_le_dos hdos _) (by omega) h₂]
          unfold WrapsInto
          constructor
          · rintro h ⟨-, hw | hp⟩
            · omega
            · exact h hp
          · rintro h hp
            exact h ⟨by omega, .inr hp⟩
        · refine iff_of_false (fun h => ?_) (not_not.mpr ⟨by omega, .inl hwraps⟩)
          have := (inside_read_iff.mp (inside_of_channelRequest h)).1
          unfold WrapsInto at hwraps
          omega

/-- The bytes the loop of `handle_channel_data` reads: as many as there are, and as fit the
ring. -/
theorem cinLoop_inside_iff : ∀ (k o : Nat) (s : Ssh),
    (cinLoop pl k o s).Inside n ↔ s.Inside n ∧
      (min k (SSH_CIN_SZ - 1 - s.g.cin.length) = 0 ∨
        pl.base + o + min k (SSH_CIN_SZ - 1 - s.g.cin.length) ≤ n)
  | 0, o, s => by simp [cinLoop]
  | k + 1, o, s => by
      rw [cinLoop]
      split
      next hfull =>
        have h0 : SSH_CIN_SZ - 1 - s.g.cin.length = 0 := by omega
        simp [h0]
      next hroom =>
        have hcin : ((s.read pl o 1).pushKey (pl.get o)).g.cin.length = s.g.cin.length + 1 := by
          simp [pushKey, note, Ssh.read]
        have hpush : ((s.read pl o 1).pushKey (pl.get o)).Inside n ↔ (s.read pl o 1).Inside n :=
          ⟨fun h => h, fun h => h⟩
        rw [cinLoop_inside_iff k, hcin, hpush, inside_read_iff]
        constructor
        · rintro ⟨⟨h1, h2⟩, h3⟩
          exact ⟨h2, by omega⟩
        · rintro ⟨h2, h3⟩
          exact ⟨⟨by omega, h2⟩, by omega⟩

/-- `handle_channel_data` takes a wrapped length for what arrived, and the ring has room for
more than that. -/
def DataOverreads (env : SshEnv) (pl : Payload) (cin : List UInt8) : Prop :=
  9 ≤ pl.len ∧ WrapsInto pl.len 9 (env.u (pl.u32 5)) ∧ pl.len < 9 + (SSH_CIN_SZ - 1 - cin.length)

@[simp] theorem adjustLocalWindow_reads (consumed : Nat) :
    (adjustLocalWindow env s consumed).reads = s.reads := by
  unfold adjustLocalWindow
  generalize hs₁ : ({ s with c := { s.c with localWindow := s.c.localWindow - consumed } } : Ssh) = s₁
  have hr : s₁.reads = s.reads := by rw [← hs₁]
  rw [← hr]
  dsimp only
  split
  · rfl
  · exact sendPacket_reads _ _ _

theorem handleChannelData_inside_iff (hdos : env.build = .dos) (hbase : pl.base = 0)
    (hlen : pl.len ≤ SSH_IB_SZ) (hs : s.Inside pl.len) :
    (handleChannelData env s pl).Inside pl.len ↔ ¬ DataOverreads env pl s.g.cin := by
  have hpl : pl.Below pl.len := by
    unfold Payload.Below
    omega
  unfold handleChannelData DataOverreads
  dsimp only
  have hd := env.u_le_dos hdos (pl.u32 5)
  generalize env.u (pl.u32 5) = dlen at *
  have hroom := u_add_le_iff hdos hlen (o := 9) (by omega) hd
  split
  next hshort => exact iff_of_true hs fun h => by omega
  next h9 =>
    have h₁ := read_inside (o := 5) (k := 4) hpl (by omega) hs
    refine Iff.trans ⟨fun h => h.of_reads (adjustLocalWindow_reads _).symm,
      fun h => h.of_reads (adjustLocalWindow_reads _)⟩ ?_
    rw [cinLoop_inside_iff]
    have hcin : (s.read pl 5 4).g.cin = s.g.cin := rfl
    have hsz : SSH_CIN_SZ = 256 := rfl
    rw [hcin]
    unfold WrapsInto SSH_IB_SZ at *
    split
    next hclamp =>
      refine iff_of_true ⟨h₁, by omega⟩ (by omega)
    next hok =>
      rw [Nat.not_lt, hroom] at hok
      constructor
      · rintro ⟨-, h⟩
        omega
      · intro h
        exact ⟨h₁, by omega⟩

/-! ## KEXINIT -/

/-- A name of the list ends in front of the comma at `j`. -/
def NameAt (list : Nat → UInt8) (name : List UInt8) (j : Nat) : Prop :=
  list j = 0x2C ∧ name.length ≤ j ∧ slice list (j - name.length) name.length = name ∧
    (j = name.length ∨ list (j - name.length - 1) = 0x2C)

/-- Between two commas there is one name. -/
theorem nameAt_iff {list : Nat → UInt8} {name : List UInt8} (hname : 0x2C ∉ name) {start i : Nat}
    (hcomma : list i = 0x2C) (hle : start ≤ i) (hstart : start = 0 ∨ list (start - 1) = 0x2C)
    (hnone : ∀ k, start ≤ k → k < i → list k ≠ 0x2C) :
    slice list start (i - start) = name ↔ NameAt list name i := by
  constructor
  · intro h
    have hlen : name.length = i - start := by rw [← h, length_slice]
    have hi : i - name.length = start := by omega
    refine ⟨hcomma, by omega, ?_, ?_⟩
    · rw [hi, hlen, h]
    · rw [hi]
      rcases hstart with h0 | hc
      · exact .inl (by omega)
      · exact .inr hc
  · rintro ⟨-, hj, hslice, hbefore⟩
    have hin : ∀ k, i - name.length ≤ k → k < i → list k ≠ 0x2C := by
      intro k h1 h2 hk
      apply hname
      rw [← hslice, ← hk]
      refine List.mem_map.mpr ⟨k - (i - name.length), List.mem_range.mpr (by omega), ?_⟩
      congr 1
      omega
    have heq : i - name.length = start := by
      rcases Nat.lt_trichotomy (i - name.length) start with hlt | heq | hgt
      · rcases hstart with h0 | hc
        · omega
        · exact absurd hc (hin (start - 1) (by omega) (by omega))
      · exact heq
      · rcases hbefore with h0 | hc
        · omega
        · exact absurd hc (hnone (i - name.length - 1) (by omega) (by omega))
    rw [← heq] at *
    rw [show i - (i - name.length) = name.length by omega, hslice]

/-- How far `nl_has` reads: to the end of the list, or to the comma behind the name. -/
theorem nlScan_le_iff {list : Nat → UInt8} {name : List UInt8} (hname : 0x2C ∉ name) (m : Nat) :
    ∀ (rem i start : Nat), start ≤ i → (start = 0 ∨ list (start - 1) = 0x2C) →
      (∀ k, start ≤ k → k < i → list k ≠ 0x2C) →
      ((nlScan list name rem i start).2 ≤ m ↔
        i + rem ≤ m ∨ ∃ j, i ≤ j ∧ j < i + rem ∧ j < m ∧ NameAt list name j)
  | 0, i, start, _, _, _ => by
      simp [nlScan]
      omega
  | rem + 1, i, start, hle, hstart, hnone => by
      rw [nlScan]
      split
      next hcomma =>
        have hat := nameAt_iff hname hcomma hle hstart hnone
        split
        next hfound =>
          constructor
          · intro h
            exact .inr ⟨i, by omega, by omega, h, hat.mp hfound⟩
          · rintro (h | ⟨j, h1, h2, h3, h4⟩)
            · simp only
              omega
            · simp only
              omega
        next hother =>
          rw [nlScan_le_iff hname m rem (i + 1) (i + 1) (by omega) (.inr hcomma)
            (fun k h1 h2 => by omega)]
          constructor
          · rintro (h | ⟨j, h1, h2, h3, h4⟩)
            · exact .inl (by omega)
            · exact .inr ⟨j, by omega, by omega, h3, h4⟩
          · rintro (h | ⟨j, h1, h2, h3, h4⟩)
            · exact .inl (by omega)
            · have hne : j ≠ i := by
                rintro rfl
                exact hother (hat.mpr h4)
              exact .inr ⟨j, by omega, by omega, h3, h4⟩
      next hplain =>
        have hnone' : ∀ k, start ≤ k → k < i + 1 → list k ≠ 0x2C := by
          intro k h1 h2
          rcases Nat.lt_or_eq_of_le (Nat.le_of_lt_succ h2) with hlt | rfl
          · exact hnone k h1 hlt
          · exact hplain
        rw [nlScan_le_iff hname m rem (i + 1) start (by omega) hstart hnone']
        constructor
        · rintro (h | ⟨j, h1, h2, h3, h4⟩)
          · exact .inl (by omega)
          · exact .inr ⟨j, by omega, by omega, h3, h4⟩
        · rintro (h | ⟨j, h1, h2, h3, h4⟩)
          · exact .inl (by omega)
          · have hne : j ≠ i := by
              rintro rfl
              exact hplain h4.1
            exact .inr ⟨j, by omega, by omega, h3, h4⟩

/-- `nl_has` leaves the payload: the list is longer than what is left of the payload, and the
name with its comma is not in there. -/
def ListOverreads (plen : Nat) (l : Payload) (name : String) : Prop :=
  plen < l.base + l.len ∧ ∀ j, l.base + j < plen → ¬ NameAt l.get (ascii name) j

theorem readNlHas_inside_iff {l : Payload} (name : String) (hname : 0x2C ∉ ascii name)
    (hbase : l.base ≤ n) :
    (s.readNlHas l name).Inside n ↔ s.Inside n ∧ ¬ ListOverreads n l name := by
  have hscan : (nlScan l.get (ascii name) l.len 0 0).2 ≤ n - l.base ↔ _ :=
    nlScan_le_iff hname (n - l.base) l.len 0 0 (Nat.le_refl 0) (.inl rfl) fun k h1 h2 => by omega
  unfold readNlHas ListOverreads
  generalize (nlScan l.get (ascii name) l.len 0 0).2 = k at *
  rw [inside_read_iff, and_comm]
  refine and_congr_right fun _ => ?_
  constructor
  · rintro hk ⟨hlong, hnot⟩
    rcases hscan.mp (by omega) with h | ⟨j, -, -, hj, hat⟩
    · omega
    · exact hnot j (by omega) hat
  · intro h
    have hk : k ≤ n - l.base := by
      rw [hscan]
      by_contra hno
      rw [not_or] at hno
      refine h ⟨by omega, fun j hj hat => hno.2 ⟨j, by omega, by omega, by omega, hat⟩⟩
    omega

/-- A scan that does not find the name reads the whole list. -/
theorem nlScan_missed {list : Nat → UInt8} {name : List UInt8} : ∀ (rem i start : Nat),
    (nlScan list name rem i start).1 = false → (nlScan list name rem i start).2 = i + rem
  | 0, i, start, _ => by simp [nlScan]
  | rem + 1, i, start, h => by
      rw [nlScan] at h ⊢
      split at h
      next hcomma =>
        rw [if_pos hcomma]
        split at h
        · cases h
        next hother =>
          rw [if_neg hother, nlScan_missed rem _ _ h]
          omega
      next hplain =>
        rw [if_neg hplain, nlScan_missed rem _ _ h]
        omega

/-- A list that is read to its end lies inside the payload. -/
theorem below_of_missed {l : Payload} {name : String} (hbase : l.base ≤ n)
    (hs : (s.readNlHas l name).Inside n) (hmissed : l.nlHas name = false) : l.Below n := by
  have hall := nlScan_missed l.len 0 0 hmissed
  unfold readNlHas at hs
  rw [inside_read_iff, hall] at hs
  unfold Payload.Below
  omega

theorem nlFirstLen_le_comma {list : Nat → UInt8} {j : Nat} (hj : list j = 0x2C) :
    ∀ (rem i : Nat), i ≤ j → j < i + rem → nlFirstLen list rem i ≤ j
  | 0, i, h1, h2 => by omega
  | rem + 1, i, h1, h2 => by
      rw [nlFirstLen]
      split
      · exact h1
      next hplain =>
        have hne : i ≠ j := by
          rintro rfl
          exact hplain hj
        exact nlFirstLen_le_comma hj rem (i + 1) (by omega) (by omega)

/-- A list that `nl_has` could search is safe for `nl_first`. -/
theorem readNlFirst_inside {l : Payload} {name : String}
    (hl : ¬ ListOverreads n l name) (hs : s.Inside n) : (s.readNlFirst l).Inside n := by
  unfold readNlFirst
  refine inside_read_iff.mpr ⟨?_, hs⟩
  rcases Nat.lt_or_ge n (l.base + l.len) with hlong | hfits
  · have hat : ∃ j, l.base + j < n ∧ NameAt l.get (ascii name) j := by
      by_contra hno
      exact hl ⟨hlong, fun j hj hat => hno ⟨j, hj, hat⟩⟩
    obtain ⟨j, hj, hat⟩ := hat
    have := nlFirstLen_le_comma hat.1 l.len 0 (Nat.zero_le j) (by omega)
    simp only [Payload.nlFirst, Payload.sub]
    omega
  · omega

/-- The searches of `negotiate`, each of which comes only if the one before succeeded. -/
def NegOverreads (plen : Nat) (kex hk enc1 enc2 : Payload) : Prop :=
  ListOverreads plen kex "curve25519-sha256" ∨
  ((kex.nlHas "curve25519-sha256" ∨ kex.nlHas "curve25519-sha256@libssh.org") ∧
    (ListOverreads plen hk "ssh-ed25519" ∨
    (hk.nlHas "ssh-ed25519" ∧
      (ListOverreads plen enc1 "chacha20-poly1305@openssh.com" ∨
      (enc1.nlHas "chacha20-poly1305@openssh.com" ∧
        ListOverreads plen enc2 "chacha20-poly1305@openssh.com")))))

theorem readKex_inside_iff {kex : Payload} (hbase : kex.base ≤ n) :
    (if kex.nlHas "curve25519-sha256" then s.readNlHas kex "curve25519-sha256"
      else (s.readNlHas kex "curve25519-sha256").readNlHas kex
        "curve25519-sha256@libssh.org").Inside n ↔
      s.Inside n ∧ ¬ ListOverreads n kex "curve25519-sha256" := by
  rw [← readNlHas_inside_iff _ (by decide) hbase]
  split
  · rfl
  next hmissed =>
    rw [Bool.not_eq_true] at hmissed
    rw [readNlHas_inside_iff "curve25519-sha256@libssh.org" (by decide) hbase]
    refine ⟨fun h => h.1, fun h => ⟨h, fun hover => ?_⟩⟩
    have hbelow := below_of_missed hbase h hmissed
    have hlong := hover.1
    unfold Payload.Below at hbelow
    omega

theorem negCheck_inside_iff {first : UInt8} {kex hk enc1 enc2 : Payload} (hkex : kex.base ≤ n)
    (hhk : hk.base ≤ n) (henc1 : enc1.base ≤ n) (henc2 : enc2.base ≤ n) (hs : s.Inside n) :
    (negCheck s first kex hk enc1 enc2).2.Inside n ↔ ¬ NegOverreads n kex hk enc1 enc2 := by
  have h1 := readKex_inside_iff (s := s) hkex
  unfold NegOverreads
  generalize hr : negCheck s first kex hk enc1 enc2 = r
  unfold negCheck at hr
  dsimp only at hr
  generalize (if kex.nlHas "curve25519-sha256" then s.readNlHas kex "curve25519-sha256"
      else (s.readNlHas kex "curve25519-sha256").readNlHas kex
        "curve25519-sha256@libssh.org") = s₁ at *
  have h2 := readNlHas_inside_iff (s := s₁) "ssh-ed25519" (by decide) hhk
  generalize s₁.readNlHas hk "ssh-ed25519" = s₂ at *
  have h3 := readNlHas_inside_iff (s := s₂) "chacha20-poly1305@openssh.com" (by decide) henc1
  generalize s₂.readNlHas enc1 "chacha20-poly1305@openssh.com" = s₃ at *
  have h4 := readNlHas_inside_iff (s := s₃) "chacha20-poly1305@openssh.com" (by decide) henc2
  generalize s₃.readNlHas enc2 "chacha20-poly1305@openssh.com" = s₄ at *
  split at hr
  next hno =>
    subst hr
    rw [h1]
    simp only [Bool.not_eq_true', Bool.or_eq_false_iff] at hno
    simp [hs, hno]
  next hkexHas =>
    simp only [Bool.not_eq_true', Bool.not_eq_false, Bool.or_eq_true] at hkexHas
    split at hr
    next hno =>
      subst hr
      rw [h2, h1]
      rw [Bool.not_eq_true'] at hno
      simp [hs, hkexHas, hno]
    next hhkHas =>
      rw [Bool.not_eq_true', Bool.not_eq_false] at hhkHas
      split at hr
      next hno =>
        subst hr
        rw [h3, h2, h1]
        rw [Bool.not_eq_true'] at hno
        simp [hs, hkexHas, hhkHas, hno, and_assoc]
      next henc1Has =>
        rw [Bool.not_eq_true', Bool.not_eq_false] at henc1Has
        split at hr
        next hno =>
          subst hr
          rw [h4, h3, h2, h1]
          simp [hs, hkexHas, hhkHas, henc1Has, and_assoc]
        next =>
          subst hr
          have hfirst : ((s₄.readNlFirst kex).readNlFirst hk).Inside n ↔ s₄.Inside n := by
            constructor
            · intro h
              exact (inside_read_iff.mp (inside_read_iff.mp h).2).2
            · intro h
              have hs₂ := (h3.mp (h4.mp h).1).1
              exact readNlFirst_inside (h2.mp hs₂).2
                (readNlFirst_inside (h1.mp (h2.mp hs₂).1).2 h)
          refine Iff.trans ⟨fun h => h, fun h => h⟩ (hfirst.trans ?_)
          rw [h4, h3, h2, h1]
          simp [hs, hkexHas, hhkHas, henc1Has, and_assoc]

/-- The lists start inside the payload, and so do their length fields: behind every list the
offset is at most the length. -/
theorem negLists_inside (hdos : env.build = .dos) (hbase : pl.base = 0)
    (hlen : pl.len ≤ SSH_IB_SZ) : ∀ (k off : Nat), off ≤ SSH_IB_SZ →
      Within pl.len (negLists env pl k off).1 ∧
      ∀ lists off', (negLists env pl k off).2 = some (lists, off') →
        (∀ l ∈ lists, l.base ≤ pl.len) ∧ (off' = off ∨ off' ≤ pl.len)
  | 0, off, _ => by simp [negLists]
  | k + 1, off, hoff => by
      have h4 : env.u (off + 4) = off + 4 := by
        unfold SSH_IB_SZ at hoff
        exact env.u_small (by omega)
      generalize hr : negLists env pl (k + 1) off = r
      rw [negLists, h4] at hr
      split at hr
      · subst hr
        simp
      next hroom =>
        dsimp only at hr
        split at hr
        · subst hr
          simp [hbase]
          omega
        next hfits =>
          have ih := negLists_inside hdos hbase hlen k (env.u (off + 4 + env.u (pl.u32 off)))
            (by omega)
          generalize env.u (off + 4 + env.u (pl.u32 off)) = off₁ at *
          generalize env.u (pl.u32 off) = l₁ at *
          generalize negLists env pl k off₁ = r₁ at *
          subst hr
          refine ⟨?_, ?_⟩
          · rw [within_cons]
            exact ⟨.inr (by simp only; omega), ih.1⟩
          · intro lists off' h
            rw [Option.map_eq_some_iff] at h
            obtain ⟨⟨rest, off''⟩, hrest, heq⟩ := h
            obtain ⟨hl, ho⟩ := ih.2 rest off'' hrest
            cases heq
            refine ⟨?_, by omega⟩
            intro l hmem
            rcases List.mem_cons.mp hmem with rfl | hmem
            · simp only [Payload.sub]
              omega
            · exact hl l hmem

/-- `negotiate` reads a name list behind the end of the payload. -/
def KexOverreads (env : SshEnv) (pl : Payload) : Prop :=
  ∃ lists off, (negLists env pl 10 17).2 = some (lists, off) ∧ off + 1 ≤ pl.len ∧
    NegOverreads pl.len (lists.getD 0 (pl.sub 0 0)) (lists.getD 1 (pl.sub 0 0))
      (lists.getD 2 (pl.sub 0 0)) (lists.getD 3 (pl.sub 0 0))

theorem negotiate_inside_iff (hdos : env.build = .dos) (hbase : pl.base = 0)
    (hlen : pl.len ≤ SSH_IB_SZ) (hs : s.Inside pl.len) :
    (negotiate env s pl).2.Inside pl.len ↔ ¬ KexOverreads env pl := by
  have hlists := negLists_inside hdos hbase hlen 10 17 (by decide)
  generalize hr : negotiate env s pl = r
  unfold negotiate at hr
  unfold KexOverreads
  generalize negLists env pl 10 17 = q at *
  obtain ⟨reads, found⟩ := q
  have h₁ : Inside pl.len { s with reads := reads ++ s.reads } := by
    rw [Inside, within_append]
    exact ⟨hlists.1, hs⟩
  cases found with
  | none =>
      subst hr
      exact iff_of_true h₁ (by simp)
  | some found =>
      obtain ⟨lists, off⟩ := found
      obtain ⟨hl, ho⟩ := hlists.2 lists off rfl
      have hu : env.u (off + 1) = off + 1 := by
        unfold SSH_IB_SZ at hlen
        exact env.u_small (by omega)
      simp only [hu] at hr
      split at hr
      next hshort =>
        subst hr
        refine iff_of_true h₁ ?_
        rintro ⟨lists', off', heq, hle, -⟩
        cases heq
        omega
      next hroom =>
        subst hr
        have h₂ : Inside pl.len (({ s with reads := reads ++ s.reads } : Ssh).read pl off 1) := by
          refine inside_read_iff.mpr ⟨.inr (by omega), h₁⟩
        have hget : ∀ k, (lists.getD k (pl.sub 0 0)).base ≤ pl.len := by
          intro k
          rw [List.getD_eq_getElem?_getD]
          cases hk : lists[k]? with
          | none =>
              simp [Payload.sub]
              omega
          | some l => exact hl l (List.mem_of_getElem? hk)
        refine (negCheck_inside_iff (hget 0) (hget 1) (hget 2) (hget 3) ?_).trans ?_
        · exact h₂.of_reads rfl
        refine not_congr ⟨fun h => ⟨lists, off, rfl, by omega, h⟩, ?_⟩
        rintro ⟨lists', off', heq, -, h⟩
        cases heq
        exact h

theorem handleKexinit_inside_iff (hdos : env.build = .dos) (hbase : pl.base = 0)
    (hlen : pl.len ≤ SSH_IB_SZ) (hs : s.Inside pl.len) :
    (handleKexinit env s pl).Inside pl.len ↔ ¬ KexOverreads env pl := by
  have hpl : pl.Below pl.len := by
    unfold Payload.Below
    omega
  rw [← negotiate_inside_iff hdos hbase hlen hs]
  unfold handleKexinit
  generalize negotiate env s pl = r
  obtain ⟨res, s₁⟩ := r
  cases res with
  | malformed => exact ⟨fun h => h.of_reads (by simp), fun h => h.of_reads (by simp)⟩
  | noCommon => exact ⟨fun h => h.of_reads (by simp), fun h => h.of_reads (by simp)⟩
  | ok =>
      constructor
      · intro h
        have h' : (s₁.readAll pl).Inside pl.len := h
        exact (inside_read_iff.mp h').2
      · intro h
        exact (readAll_inside hpl h).of_reads rfl

/-! ## All messages -/

/-- The packet makes its handler read behind its end. -/
def Overreads (env : SshEnv) (s : Ssh) (pl : Payload) : Prop :=
  (s.c.state = .expectKexinit ∧ pl.msg = MSG_KEXINIT ∧ KexOverreads env pl) ∨
  (s.c.state = .session ∧
    ((pl.msg = MSG_CHANNEL_OPEN ∧ OpenOverreads env pl) ∨
    (pl.msg = MSG_CHANNEL_REQUEST ∧ RequestOverreads env pl) ∨
    (pl.msg = MSG_CHANNEL_DATA ∧ DataOverreads env pl s.g.cin)))

theorem flushLoop_inside : ∀ (fuel sent : Nat) (s : Ssh), s.Inside n →
    (flushLoop env fuel sent s).2.Inside n
  | 0, sent, s, hs => hs
  | fuel + 1, sent, s, hs => by
      generalize hr : flushLoop env (fuel + 1) sent s = r
      rw [flushLoop] at hr
      dsimp only at hr
      split at hr
      · subst hr
        exact hs
      · split at hr
        · subst hr
          exact hs
        · generalize hs₁ : s.sendPacket env _ = s₁ at hr
          have h₁ : s₁.Inside n := hs.of_reads (by rw [← hs₁, sendPacket_reads])
          split at hr
          · subst hr
            exact h₁
          · subst hr
            exact flushLoop_inside fuel _ _ (h₁.of_reads rfl)

theorem sshChannelFlush_inside (hs : s.Inside n) : (sshChannelFlush env s).Inside n := by
  unfold sshChannelFlush
  split
  · exact hs.of_reads rfl
  · exact (flushLoop_inside s.g.cout.length 0 s hs).of_reads rfl

theorem sshChannelClose_inside (hs : s.Inside n) : (sshChannelClose env s).Inside n := by
  have hsend : ∀ (s : Ssh) (p : List UInt8), s.Inside n → (s.sendPacket env p).Inside n :=
    fun s p hs => hs.of_reads (sendPacket_reads env s p)
  unfold sshChannelClose
  split
  · exact hs
  · have h₁ : (sshChannelFlush env s).Inside n := sshChannelFlush_inside hs
    generalize sshChannelFlush env s = s₁ at *
    dsimp only
    generalize hs₂ : (if s₁.c.shellReady then _ else s₁) = s₂
    have h₂ : s₂.Inside n := by
      rw [← hs₂]
      split
      · exact hsend _ _ h₁
      · exact h₁
    generalize hs₃ : (if !s₂.c.chanSentEof then _ else s₂) = s₃
    have h₃ : s₃.Inside n := by
      rw [← hs₃]
      split
      · exact (hsend _ _ h₂).of_reads rfl
      · exact h₂
    exact (hsend _ _ h₃).of_reads rfl

theorem handleSession_inside_iff (hdos : env.build = .dos) (hbase : pl.base = 0)
    (hlen : pl.len ≤ SSH_IB_SZ) (hs : s.Inside pl.len) :
    (handleSession env s pl pl.msg).Inside pl.len ↔
      ¬ ((pl.msg = MSG_CHANNEL_OPEN ∧ OpenOverreads env pl) ∨
        (pl.msg = MSG_CHANNEL_REQUEST ∧ RequestOverreads env pl) ∨
        (pl.msg = MSG_CHANNEL_DATA ∧ DataOverreads env pl s.g.cin)) := by
  have hpl : pl.Below pl.len := by
    unfold Payload.Below
    omega
  unfold handleSession
  generalize pl.msg = msg
  dsimp only
  split
  next hmsg =>
    subst hmsg
    rw [handleChannelOpen_inside_iff hdos hbase hlen hs]
    simp [MSG_CHANNEL_OPEN, MSG_CHANNEL_REQUEST, MSG_CHANNEL_DATA]
  next hopen =>
    split
    next hmsg =>
      subst hmsg
      rw [handleChannelRequest_inside_iff hdos hbase hlen hs]
      simp [MSG_CHANNEL_OPEN, MSG_CHANNEL_REQUEST, MSG_CHANNEL_DATA]
    next hreq =>
      split
      next hmsg =>
        subst hmsg
        rw [handleChannelData_inside_iff hdos hbase hlen hs]
        simp [MSG_CHANNEL_OPEN, MSG_CHANNEL_REQUEST, MSG_CHANNEL_DATA]
      next hdata =>
        refine iff_of_true ?_ (by simp [hopen, hreq, hdata])
        split
        · exact handleChannelWindowAdjust_inside hpl hs
        · split
          · exact hs.of_reads rfl
          · split
            · generalize hs₁ : (if !s.c.chanSentClose then sshChannelClose env s else s) = s₁
              have h₁ : s₁.Inside pl.len := by
                rw [← hs₁]
                split
                · exact sshChannelClose_inside hs
                · exact hs
              exact h₁.of_reads rfl
            · exact hs

theorem handleByState_inside_iff (hdos : env.build = .dos) (hbase : pl.base = 0)
    (hlen : pl.len ≤ SSH_IB_SZ) (hs : s.Inside pl.len) :
    (handleByState env s pl pl.msg).Inside pl.len ↔ ¬ Overreads env s pl := by
  have hpl : pl.Below pl.len := by
    unfold Payload.Below
    omega
  unfold handleByState Overreads
  split
  next hst =>
    simp only [hst, true_and, reduceCtorEq, false_and, or_false]
    split
    next hmsg => exact iff_of_true (hs.of_reads (by simp)) fun h => hmsg h.1
    next hmsg =>
      rw [not_not] at hmsg
      rw [handleKexinit_inside_iff hdos hbase hlen hs]
      simp [hmsg]
  next hst =>
    refine iff_of_true ?_ (by simp [hst])
    split
    · exact hs.of_reads (by simp)
    · exact handleEcdhInit_inside hpl hs
  next hst =>
    refine iff_of_true ?_ (by simp [hst])
    split
    · exact hs.of_reads (by simp)
    · exact hs.of_reads rfl
  next hst =>
    refine iff_of_true ?_ (by simp [hst])
    split
    · exact hs.of_reads (by simp)
    · exact handleServiceRequest_inside hpl hs
  next hst =>
    refine iff_of_true ?_ (by simp [hst])
    split
    · exact handleUserauthRequest_inside hpl hlen hs
    · exact hs
  next hst =>
    rw [handleSession_inside_iff hdos hbase hlen hs]
    simp [hst]
  all_goals
    next hst => exact iff_of_true (hs.of_reads (by simp)) (by simp [hst])

theorem handlePacket_inside_iff (hdos : env.build = .dos) (hbase : pl.base = 0)
    (hlen : pl.len ≤ SSH_IB_SZ) (hs : s.Inside pl.len) :
    (handlePacket env s pl).Inside pl.len ↔ ¬ Overreads env s pl := by
  have hpl : pl.Below pl.len := by
    unfold Payload.Below
    omega
  unfold handlePacket
  dsimp only
  generalize hs₁ : (if pl.len ≠ 0 then s.read pl 0 1 else s) = s₁
  have h₁ : s₁.Inside pl.len := by
    rw [← hs₁]
    split
    · exact read_inside hpl (by omega) hs
    · exact hs
  have hover : Overreads env s₁ pl ↔ Overreads env s pl := by
    rw [← hs₁]
    split <;> rfl
  rw [← hover]
  split
  next hmsg =>
    refine iff_of_true (h₁.of_reads rfl) ?_
    simp [Overreads, hmsg, MSG_DISCONNECT, MSG_KEXINIT, MSG_CHANNEL_OPEN, MSG_CHANNEL_REQUEST,
      MSG_CHANNEL_DATA]
  next =>
    split
    next hmsg =>
      refine iff_of_true h₁ ?_
      rcases hmsg with hmsg | hmsg | hmsg
      all_goals
        simp [Overreads, hmsg, MSG_IGNORE, MSG_DEBUG, MSG_UNIMPLEMENTED, MSG_KEXINIT,
          MSG_CHANNEL_OPEN, MSG_CHANNEL_REQUEST, MSG_CHANNEL_DATA]
    next =>
      split
      next hmsg =>
        refine iff_of_true (handleGlobalRequest_inside hpl h₁) ?_
        simp [Overreads, hmsg, MSG_GLOBAL_REQUEST, MSG_KEXINIT, MSG_CHANNEL_OPEN,
          MSG_CHANNEL_REQUEST, MSG_CHANNEL_DATA]
      next => exact handleByState_inside_iff hdos hbase hlen h₁

/-- The payload byte `i` was read. -/
def Ssh.Touched (s : Ssh) (i : Nat) : Prop := ∃ r ∈ s.reads, r.1 ≤ i ∧ i < r.1 + r.2

theorem Ssh.inside_iff_touched : s.Inside n ↔ ∀ i, s.Touched i → i < n := by
  unfold Inside Within Touched
  constructor
  · rintro h i ⟨r, hr, h1, h2⟩
    have := h r hr
    omega
  · intro h r hr
    rcases Nat.eq_zero_or_pos r.2 with h0 | hpos
    · exact .inl h0
    · have := h (r.1 + r.2 - 1) ⟨r, hr, by omega, by omega⟩
      omega

end

/-- On the DOS build a packet is read inside its payload if and only if it is not one of the
four messages with a length that wraps into it. -/
theorem payload_reads_bounded {env : SshEnv} (hdos : env.build = .dos) (s : Ssh) {pl : Payload}
    (hbase : pl.base = 0) (hlen : pl.len ≤ SSH_IB_SZ) :
    (∀ i, (handlePacket env { s with reads := [] } pl).Touched i → i < pl.len) ↔
      ¬ Overreads env s pl := by
  have hstart : ({ s with reads := [] } : Ssh).Inside pl.len := within_nil _
  rw [← inside_iff_touched]
  exact handlePacket_inside_iff hdos hbase hlen hstart

/-- A `CHANNEL_REQUEST` for the recipient 0 whose type is said to be `rtlen` bytes long. -/
def requestPayload (rtlen : List UInt8) : Payload :=
  ⟨fun k => ([MSG_CHANNEL_REQUEST, 0, 0, 0, 0] ++ rtlen).getD k 0, 0, 5 + rtlen.length⟩

theorem payload_reads_bounded_empty_request :
    ∃ s : Ssh, s.c.state = .session ∧ (requestPayload [0, 0, 0, 0]).len = 9 ∧
      ∀ i, (handlePacket sampleEnv { s with reads := [] } (requestPayload [0, 0, 0, 0])).Touched i →
        i < 9 := by
  refine ⟨⟨{ SshConn.zero with state := .session }, SshShared.zero, []⟩, rfl, rfl, ?_⟩
  refine (payload_reads_bounded rfl _ rfl (by decide)).mpr ?_
  rintro (⟨hst, -⟩ | ⟨-, ⟨hmsg, -⟩ | ⟨-, -, hwraps | ⟨hpty, -⟩⟩ | ⟨hmsg, -⟩⟩)
  · cases hst
  · exact absurd hmsg (by decide)
  · exact absurd hwraps.1 (by decide)
  · exact absurd hpty (by decide)
  · exact absurd hmsg (by decide)

/-- The client of `loginChunks` asks for a request type of 65526 bytes: the byte behind it is
number 65535 of a payload of nine. -/
theorem request_type_wraps :
    ∃ s : Ssh, SshReach sampleEnv s ∧ (requestPayload [0, 0, 0xFF, 0xF6]).len = 9 ∧
      ∃ i, (handlePacket sampleEnv { s with reads := [] }
        (requestPayload [0, 0, 0xFF, 0xF6])).Touched i ∧ ¬ i < 9 := by
  obtain ⟨s, hreach, hst, -⟩ := login_run
  refine ⟨s, hreach, rfl, ?_⟩
  have hover : Overreads sampleEnv s (requestPayload [0, 0, 0xFF, 0xF6]) := by
    refine .inr ⟨hst, .inr (.inl ⟨by decide, by decide, .inl ?_⟩)⟩
    exact ⟨by decide, by decide⟩
  have hout := (handlePacket_inside_iff (s := { s with reads := [] }) rfl rfl (by decide)
    (within_nil _)).not_left.mpr hover
  have hlen : (requestPayload [0, 0, 0xFF, 0xF6]).len = 9 := rfl
  rw [inside_iff_touched] at hout
  simpa [hlen] using hout

end Dossh
