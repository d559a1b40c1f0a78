import Dossh.Ssh.Invariant

/-!
# What goes through the shared buffers

The history of a connection records every frame and every keystroke.  `wireOf` and `keysOf`
are the bytes of these, oldest first.  A call on a connection appends to `g_ob` the bytes it
records as framed, as long as `ob_append` drops none, and to `g_cin` the keystrokes it records
(`Ssh.Records`).  The records of `ssh_channel_emit` go to the caller instead.
-/

namespace Dossh

open Ssh

/-- The bytes an event sends. -/
def SshEvent.sent : SshEvent → List UInt8
  | .ident line => line
  | .frame _ _ _ bytes => bytes
  | _ => []

/-- The keystrokes of an event. -/
def SshEvent.typed : SshEvent → List UInt8
  | .key b => [b]
  | _ => []

/-- The bytes that were framed for a connection, oldest first. -/
def wireOf (trace : List SshEvent) : List UInt8 := trace.reverse.flatMap SshEvent.sent

/-- The keystrokes that were decrypted on a connection, oldest first. -/
def keysOf (trace : List SshEvent) : List UInt8 := trace.reverse.flatMap SshEvent.typed

theorem wireOf_cons (e : SshEvent) (trace : List SshEvent) :
    wireOf (e :: trace) = wireOf trace ++ e.sent := by
  simp [wireOf]

theorem keysOf_cons (e : SshEvent) (trace : List SshEvent) :
    keysOf (e :: trace) = keysOf trace ++ e.typed := by
  simp [keysOf]

/-- What a call appends to the shared queues is what it records. -/
structure Ssh.Records (s s' : Ssh) : Prop where
  overflow : s.g.overflow = true → s'.g.overflow = true
  ob : s'.g.overflow = false →
    ∃ x, s'.g.ob = s.g.ob ++ x ∧ wireOf s'.c.trace = wireOf s.c.trace ++ x
  cin : ∃ x, s'.g.cin = s.g.cin ++ x ∧ keysOf s'.c.trace = keysOf s.c.trace ++ x

namespace Ssh.Records

variable {env : SshEnv} {W : Prop} {s s' s'' : Ssh}

/-- Nothing was queued. -/
theorem same (htr : s'.c.trace = s.c.trace) (hob : s'.g.ob = s.g.ob) (hcin : s'.g.cin = s.g.cin)
    (hov : s'.g.overflow = s.g.overflow) : s.Records s' :=
  ⟨fun h => hov.trans h, fun _ => ⟨[], by simp [hob, htr]⟩, [], by simp [hcin, htr]⟩

theorem refl (s : Ssh) : s.Records s := same rfl rfl rfl rfl

theorem trans (h : s.Records s') (h' : s'.Records s'') : s.Records s'' := by
  refine ⟨fun ho => h'.overflow (h.overflow ho), fun ho => ?_, ?_⟩
  · have ho' : s'.g.overflow = false := by
      cases hov : s'.g.overflow with
      | false => rfl
      | true => rw [h'.overflow hov] at ho; cases ho
    obtain ⟨x, hob, htr⟩ := h.ob ho'
    obtain ⟨y, hob', htr'⟩ := h'.ob ho
    exact ⟨x ++ y, by rw [hob', hob, List.append_assoc], by rw [htr', htr, List.append_assoc]⟩
  · obtain ⟨x, hcin, htr⟩ := h.cin
    obtain ⟨y, hcin', htr'⟩ := h'.cin
    exact ⟨x ++ y, by rw [hcin', hcin, List.append_assoc], by rw [htr', htr, List.append_assoc]⟩

theorem quiet (h : s.Quiet s') : s.Records s' := by
  have htr := congrArg SshConn.trace h.conn.eq
  have hcin := congrArg SshShared.cin h.shared
  have hov := congrArg SshShared.overflow h.shared
  exact same htr h.ob hcin hov

/-- An event that sends and types nothing. -/
theorem note (s : Ssh) {e : SshEvent} (hsent : e.sent = []) (htyped : e.typed = []) :
    s.Records (s.note e) :=
  ⟨id, fun _ => ⟨[], by simp [Ssh.note, wireOf_cons, hsent]⟩,
    [], by simp [Ssh.note, keysOf_cons, htyped]⟩

theorem fail (s : Ssh) (why : String) : s.Records (s.fail why) := by
  unfold Ssh.fail
  split
  · exact same rfl rfl rfl rfl
  · exact refl s

/-! ### Sending -/

/-- What `ob_append` does to the queue. -/
theorem obAppend (env : SshEnv) (s : Ssh) (d : List UInt8) :
    (s.obAppend env d).c.trace = s.c.trace ∧ (s.obAppend env d).g.cin = s.g.cin ∧
      (s.g.overflow = true → (s.obAppend env d).g.overflow = true) ∧
      ((s.obAppend env d).g.overflow = false →
        s.g.overflow = false ∧ (s.obAppend env d).g.ob = s.g.ob ++ d) := by
  unfold Ssh.obAppend
  split
  · have htr : (s.fail "output overflow").c.trace = s.c.trace := by
      unfold Ssh.fail
      split <;> rfl
    exact ⟨htr, rfl, fun _ => rfl, fun h => by cases h⟩
  · exact ⟨rfl, rfl, id, fun h => ⟨h, rfl⟩⟩

theorem sendUnenc (env : SshEnv) (s : Ssh) (payload : List UInt8) :
    s.Records (s.sendUnenc env payload) := by
  unfold Ssh.sendUnenc
  dsimp only
  generalize be32 _ ++ [UInt8.ofNat _] = hdr
  generalize env.rngBytes s.g.rngPos _ = pad
  generalize padLen (4 + 1 + payload.length) = padlen
  obtain ⟨htr₁, hcin₁, hov₁, hob₁⟩ := obAppend env s hdr
  generalize s.obAppend env hdr = s₁ at *
  obtain ⟨htr₂, hcin₂, hov₂, hob₂⟩ := obAppend env s₁ payload
  generalize s₁.obAppend env payload = s₂ at *
  obtain ⟨htr₃, hcin₃, hov₃, hob₃⟩ := obAppend env (s₂.rngSkip padlen) pad
  generalize (s₂.rngSkip padlen).obAppend env pad = s₃ at *
  have htr : s₃.c.trace = s.c.trace := htr₃.trans (htr₂.trans htr₁)
  refine ⟨fun h => hov₃ (hov₂ (hov₁ h)), fun h => ⟨hdr ++ payload ++ pad, ?_, ?_⟩, [], ?_, ?_⟩
  · obtain ⟨ho₂, h₃⟩ := hob₃ h
    obtain ⟨ho₁, h₂⟩ := hob₂ ho₂
    obtain ⟨-, h₁⟩ := hob₁ ho₁
    refine h₃.trans ?_
    simp only [Ssh.rngSkip, h₂, h₁, List.append_assoc]
  · simp only [Ssh.framed, wireOf_cons, htr]
    rfl
  · simp only [Ssh.framed, List.append_nil]
    exact hcin₃.trans (hcin₂.trans hcin₁)
  · simp only [Ssh.framed, keysOf_cons, htr]
    rfl

theorem sendEnc (env : SshEnv) (s : Ssh) (payload : List UInt8) :
    s.Records (s.sendEnc env payload) := by
  unfold Ssh.sendEnc
  split
  · exact fail s _
  · unfold Ssh.aeadSeal
    dsimp only
    generalize sealFrame _ _ _ payload _ = wire
    generalize hs₁ : (s.rngSkip _).framed true payload wire = s₁
    have htr₁ : s₁.c.trace = .frame true s.c.sendSeq payload wire :: s.c.trace := by
      rw [← hs₁]
      rfl
    have hg₁ : s₁.g.ob = s.g.ob ∧ s₁.g.cin = s.g.cin ∧ s₁.g.overflow = s.g.overflow := by
      rw [← hs₁]
      exact ⟨rfl, rfl, rfl⟩
    obtain ⟨htr, hcin, hov, hob⟩ := obAppend env s₁ wire
    refine ⟨fun h => hov (hg₁.2.2.trans h), fun h => ⟨wire, ?_, ?_⟩, [], ?_, ?_⟩
    · rw [(hob h).2, hg₁.1]
    · rw [htr, htr₁, wireOf_cons]
      rfl
    · rw [hcin, hg₁.2.1, List.append_nil]
    · rw [htr, htr₁, keysOf_cons]
      rfl

theorem sendPacket (env : SshEnv) (s : Ssh) (payload : List UInt8) :
    s.Records (s.sendPacket env payload) := by
  unfold Ssh.sendPacket
  split
  · exact sendEnc env s payload
  · exact sendUnenc env s payload

theorem act (h : s.Act env W s') : s.Records s' := by
  cases h with
  | quiet hq => exact quiet hq
  | fail why => exact fail s why
  | send payload => exact sendPacket env s payload
  | cout staged => exact same rfl rfl rfl rfl
  | key b hst =>
      refine ⟨id, fun _ => ⟨[], ?_, ?_⟩, [b], rfl, ?_⟩
      · simp [Ssh.pushKey, Ssh.note]
      · simp [Ssh.pushKey, Ssh.note, wireOf_cons, SshEvent.sent]
      · simp [Ssh.pushKey, Ssh.note, keysOf_cons, SshEvent.typed]
  | channel c' hc hopen =>
      have htr := congrArg SshConn.trace hc.eq
      exact same htr rfl rfl rfl
  | winsize cols rows hW hst => exact same rfl rfl rfl rfl

theorem acts (h : s.Acts env W s') : s.Records s' :=
  Ssh.Acts.lift (R := Ssh.Records) refl (fun _ _ _ => trans) (fun _ _ => act) h

end Ssh.Records

/-! ## Packets -/

theorem ecdhReply_records (env : SshEnv) (s : Ssh) (qC qS raw : List UInt8) :
    s.Records (ecdhReply env s qC qS raw) := by
  unfold ecdhReply
  dsimp only
  generalize s.c.hctx ++ putStr (buildKsBlob env) ++ putStr qC ++ putStr qS ++ buildKmpint raw
    = hctx
  generalize env.crypto.sha256 hctx = h
  generalize buildKmpint raw = k
  generalize (if s.c.haveSessionId = true then s.c.sessionId else h) = sid
  generalize [MSG_KEX_ECDH_REPLY] ++ putStr (buildKsBlob env) ++ putStr qS ++
    putStr (putNl "ssh-ed25519" ++ putStr (env.crypto.ed25519Sign env.hostkeySk h)) = reply
  have h₁ : s.Records { s with
      g := { s.g with kmpint := k, hash := h }
      c := { s.c with hctx := hctx, sessionId := sid, haveSessionId := true } } :=
    .same rfl rfl rfl rfl
  have h₂ := h₁.trans (.sendPacket env _ reply)
  generalize Ssh.sendPacket env _ reply = s₂ at h₂ ⊢
  generalize deriveKey env.crypto k h s₂.c.sessionId 67 64 = ekC
  generalize deriveKey env.crypto k h s₂.c.sessionId 68 64 = ekS
  have h₃ : s₂.Records { s₂ with
      c := { s₂.c with ekC2s := ekC, ekS2c := ekS, keysReady := true } } := .same rfl rfl rfl rfl
  have h₄ := (h₂.trans h₃).trans (.sendPacket env _ [MSG_NEWKEYS])
  generalize Ssh.sendPacket env _ [MSG_NEWKEYS] = s₄ at h₄ ⊢
  exact h₄.trans (.same rfl rfl rfl rfl)

section

variable {env : SshEnv} {s s' : Ssh}

theorem Deed.records {W : Prop} {pl : Payload} (hd : Deed env W pl s s') : s.Records s' := by
  cases hd with
  | acts ha => exact .acts ha
  | disconnect s₁ hq hs' =>
      rw [hs']
      exact (Records.quiet hq).trans (.same rfl rfl rfl rfl)
  | kexinit hst s₁ hq hmsg hneg hs' =>
      have hq' := hq.trans (negotiate_quiet env s₁ pl)
      rw [hs']
      generalize (negotiate env s₁ pl).2 = s₂ at *
      exact (Records.quiet hq').trans (.same rfl rfl rfl rfl)
  | ecdh hst s₁ hq hmsg hlen hqc raw hraw hgood hs' =>
      rw [hs']
      exact (Records.quiet hq).trans (ecdhReply_records env s₁ _ _ raw)
  | newkeys hst hg hc => exact .same (by rw [hc]) (by rw [hg]) (by rw [hg]) (by rw [hg])
  | service hst s₁ hq name hname hs' =>
      rw [hs']
      have hs := Records.sendPacket env s₁ ([MSG_SERVICE_ACCEPT] ++ putStr name)
      generalize s₁.sendPacket env ([MSG_SERVICE_ACCEPT] ++ putStr name) = s₂ at *
      exact ((Records.quiet hq).trans hs).trans (.same rfl rfl rfl rfl)
  | rejected hst s₁ hq hs' =>
      rw [hs', sendDisconnect]
      exact ((Records.quiet hq).trans (.sendPacket env s₁ _)).trans (.same rfl rfl rfl rfl)
  | granted hst s₁ hq hs' =>
      rw [hs', sendUserauthSuccess]
      exact ((Records.quiet hq).trans (.sendPacket env s₁ _)).trans (.same rfl rfl rfl rfl)
  | closed hst s₁ hq s₂ hs₂ hs' =>
      have hclose : s₁.Records s₂ := by
        rw [hs₂]
        split
        · exact .acts (W := W) (sshChannelClose_acts env s₁)
        · exact .refl s₁
      rw [hs']
      exact ((Records.quiet hq).trans hclose).trans (.same rfl rfl rfl rfl)

theorem dispatch_records (env : SshEnv) (s : Ssh) (wire : List UInt8) (mem : Nat → UInt8)
    (k need : Nat) : s.Records ((s.dispatch env wire mem k).finish need) := by
  have hd := (dispatch_deed env True s wire mem k fun _ _ => trivial).records
  generalize s.dispatch env wire mem k = s₁ at hd ⊢
  have hnote : s.Records (s.note (s.packetEvent wire (slice mem 0 k))) := .note s rfl rfl
  exact (hnote.trans hd).trans (.same rfl rfl rfl rfl)

theorem Turn.records {r : TryRes} (ht : Turn env s r s') : s.Records s' := by
  have hopened : s.Records { s with c := s.c.opened env } := .same rfl rfl rfl rfl
  cases ht with
  | waits => exact .refl s
  | wild => exact .refl s
  | fails s₁ hs₁ why =>
      rcases hs₁ with rfl | rfl
      · exact .fail _ why
      · exact hopened.trans (.fail _ why)
  | banner hst k hk => exact .same rfl rfl rfl rfl
  | version hst k hk line => exact .same rfl rfl rfl rfl
  | plain hst henc mem beyond n hib hlen hneed => exact dispatch_records env s _ _ _ _
  | opened hst henc hv beyond padlen hpad hle =>
      exact hopened.trans (dispatch_records env _ _ _ _ _)

/-- A relation that every turn satisfies and that composes holds over the loop. -/
theorem inputLoop_lift {R : Ssh → Ssh → Prop} (hrefl : ∀ s, R s s)
    (htrans : ∀ s s' s'', R s s' → R s' s'' → R s s'')
    (hturn : ∀ s r s', Turn env s r s' → R s s') (beyond : Nat → Nat → UInt8) (fuel t : Nat)
    (s s' : Ssh) (h : (inputLoop env beyond fuel t s).state? = some s') : R s s' := by
  refine inputLoop_preserves (P := R s) ?_ beyond fuel t s s' (hrefl s) h
  intro beyond s₁ hR _
  exact htrans _ _ _ hR (hturn _ _ _ (inputStep_turn env beyond s₁))

/-- A relation for a call of `ssh_input`. -/
theorem sshInput_lift {R : Ssh → Ssh → Prop} (hrefl : ∀ s, R s s)
    (htrans : ∀ s s' s'', R s s' → R s' s'' → R s s'')
    (hturn : ∀ s r s', Turn env s r s' → R s s') (hfail : ∀ s why, R s (s.fail why))
    (hfeed : ∀ s data, R s { s with c := { s.c with ib := s.c.ib ++ data } })
    {beyond : Nat → Nat → UInt8} {fuel : Nat} {data : List UInt8}
    (h : (sshInput env beyond fuel s data).state? = some s') : R s s' := by
  unfold sshInput at h
  split at h
  · cases h
    exact hrefl s
  · split at h
    · cases h
      exact hfail s _
    · split at h
      · cases h
      · exact htrans _ _ _ (hfeed s data)
          (inputLoop_lift hrefl htrans hturn beyond fuel 0 _ s' h)

theorem sshInput_records {beyond : Nat → Nat → UInt8} {fuel : Nat} {data : List UInt8}
    (h : (sshInput env beyond fuel s data).state? = some s') : s.Records s' :=
  sshInput_lift .refl (fun _ _ _ => .trans) (fun _ _ _ => Turn.records) .fail
    (fun _ _ => .same rfl rfl rfl rfl) h

/-- Sending types nothing. -/
theorem keysOf_sends (h : s.Sends s') : keysOf s'.c.trace = keysOf s.c.trace := by
  obtain ⟨es, htr, hes⟩ := h.logs
  rw [htr]
  clear htr
  induction es with
  | nil => rfl
  | cons e es ih =>
      obtain ⟨seq, payload, bytes, rfl⟩ := hes e List.mem_cons_self
      rw [List.cons_append, keysOf_cons, ih fun e he => hes e (List.mem_cons_of_mem _ he)]
      exact List.append_nil _

/-- A fresh connection has queued its identification line and its `KEXINIT`. -/
theorem sshReset_records (env : SshEnv) (g : SshShared) :
    (g.overflow = true → (sshReset env g).g.overflow = true) ∧
      ((sshReset env g).g.overflow = false →
        (sshReset env g).g.ob = wireOf (sshReset env g).c.trace) ∧
      (sshReset env g).g.cin = [] ∧ keysOf (sshReset env g).c.trace = [] := by
  unfold sshReset
  dsimp only
  have hline : (ascii SERVER_ID_CRLF).length ≤ SSH_OB_SZ := by decide
  generalize ascii SERVER_ID_CRLF = line at hline ⊢
  rw [obAppend_fits env _ line (by simpa [Ssh.note] using hline)]
  generalize ourKexinit _ = iS
  generalize hs₁ : Ssh.mk _ (SshShared.mk _ _ _ _ _ _ _) _ = s₁
  have h₁ : s₁.g.ob = line ∧ s₁.g.cin = [] ∧ s₁.g.overflow = g.overflow ∧
      s₁.c.trace = [.ident line] := by
    rw [← hs₁]
    exact ⟨rfl, rfl, rfl, rfl⟩
  have hplain : s₁.c.sendEncrypted = false := by
    rw [← hs₁]
    rfl
  have hkeys := keysOf_sends (Sends.sendUnenc env hplain iS)
  have hsend := Records.sendUnenc env s₁ iS
  generalize s₁.sendUnenc env iS = s₂ at hsend hkeys ⊢
  obtain ⟨hob, hcin, hov, htr⟩ := h₁
  rw [htr] at hkeys
  obtain ⟨x, hcin', htr'⟩ := hsend.cin
  refine ⟨fun h => hsend.overflow (hov.trans h), fun h => ?_, ?_, ?_⟩
  · obtain ⟨x, hob', htr'⟩ := hsend.ob h
    rw [hob', htr', hob, htr]
    simp [wireOf, SshEvent.sent]
  · rw [hkeys, htr] at htr'
    rw [hcin', hcin]
    simpa [keysOf, SshEvent.typed] using htr'
  · rw [hkeys]
    rfl

end

end Dossh
