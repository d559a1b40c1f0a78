import Dossh.Ssh.Acts
import Dossh.Ssh.Framing
import Dossh.Ssh.Guarded
import Dossh.Ssh.RoundTrip
import Dossh.Ssh.Verdict

/-!
# Delivery in chunks

`ssh_input` appends a chunk to `ib` before it looks at what is there, and fails with "input
overflow" when the two do not fit together.  Of a stream of lines and packets the buffer holds,
between two calls, the part of the last one that has not arrived as a whole.  A chunk may bring
the rest of it and much more, and the test counts all of that.
-/

namespace Dossh

open Ssh

/-! ## The texts of the other errors -/

namespace Ssh

/-- The call does not fail with "input overflow". -/
def Spares (s s' : Ssh) : Prop :=
  s.c.errMsg ≠ "input overflow" → s'.c.errMsg ≠ "input overflow"

namespace Spares

variable {env : SshEnv} {s s' s'' : Ssh}

theorem of_errMsg (h : s'.c.errMsg = s.c.errMsg) : s.Spares s' := by
  intro hs
  rwa [h]

theorem refl (s : Ssh) : s.Spares s := id

theorem trans (h : s.Spares s') (h' : s'.Spares s'') : s.Spares s'' := h' ∘ h

/-- The later call given first. -/
theorem before (h' : s'.Spares s'') (h : s.Spares s') : s.Spares s'' := h.trans h'

theorem of_conn (h : s'.c = s.c) : s.Spares s' := .of_errMsg (by rw [h])

theorem quiet (h : s.Quiet s') : s.Spares s' := by
  have hc := congrArg SshConn.errMsg h.conn.eq
  exact .of_errMsg hc

theorem fail (s : Ssh) {why : String} (hwhy : why ≠ "input overflow") : s.Spares (s.fail why) := by
  unfold Ssh.fail
  split
  · exact fun _ => hwhy
  · exact .refl s

theorem obAppend (env : SshEnv) (s : Ssh) (d : List UInt8) : s.Spares (s.obAppend env d) := by
  unfold Ssh.obAppend
  split
  · exact (Spares.fail s (by decide)).trans (.of_conn rfl)
  · exact .of_conn rfl

theorem sendUnenc (env : SshEnv) (s : Ssh) (payload : List UInt8) :
    s.Spares (s.sendUnenc env payload) := by
  unfold Ssh.sendUnenc
  dsimp only
  generalize be32 _ ++ [UInt8.ofNat _] = hdr
  have h₂ : s.Spares ((s.obAppend env hdr).obAppend env payload) :=
    (obAppend env s hdr).trans (obAppend env _ payload)
  generalize (s.obAppend env hdr).obAppend env payload = s₂ at h₂ ⊢
  refine h₂.trans ?_
  generalize hs₃ : Ssh.obAppend env (s₂.rngSkip _) _ = s₃
  have h₃ : s₂.Spares s₃ := by
    rw [← hs₃]
    exact (obAppend env _ _).before (.of_conn rfl)
  exact h₃.trans (.of_errMsg rfl)

theorem sendPacket (env : SshEnv) (s : Ssh) (payload : List UInt8) :
    s.Spares (s.sendPacket env payload) := by
  unfold Ssh.sendPacket
  split
  · unfold Ssh.sendEnc
    split
    · exact .fail s (by decide)
    · exact (obAppend env _ _).before (.of_errMsg rfl)
  · exact sendUnenc env s payload

theorem winsize (s : Ssh) (cols rows : Nat) :
    s.Spares { s with c := { s.c with termCols := cols, termRows := rows } } := .of_errMsg rfl

theorem peerWindow (s : Ssh) (window : Nat) :
    s.Spares { s with c := { s.c with peerWindow := window } } := .of_errMsg rfl

theorem localWindow (s : Ssh) (window : Nat) :
    s.Spares { s with c := { s.c with localWindow := window } } := .of_errMsg rfl

/-- A packet and an assignment behind it. -/
theorem sendPacket_with (env : SshEnv) (s : Ssh) (payload : List UInt8)
    (h : s'.c.errMsg = (s.sendPacket env payload).c.errMsg) : s.Spares s' :=
  (sendPacket env s payload).trans (.of_errMsg h)

end Spares

end Ssh

section

variable {env : SshEnv}

theorem handleKexinit_spares (env : SshEnv) (s : Ssh) (pl : Payload) :
    s.Spares (handleKexinit env s pl) := by
  have hq := negotiate_quiet env s pl
  unfold handleKexinit
  split
  next s₁ heq =>
    rw [heq] at hq
    exact (Spares.fail s₁ (by decide)).before (.quiet hq)
  next s₁ heq =>
    rw [heq] at hq
    exact (Spares.fail s₁ (by decide)).before (.quiet hq)
  next s₁ heq =>
    rw [heq] at hq
    exact (Spares.quiet hq).trans (.of_errMsg rfl)

theorem handleEcdhInit_spares (env : SshEnv) (s : Ssh) (pl : Payload) :
    s.Spares (handleEcdhInit env s pl) := by
  unfold handleEcdhInit
  dsimp only
  split
  · exact .of_errMsg rfl
  · split
    · exact .fail s (by decide)
    · split
      · exact (Spares.fail _ (by decide)).before (.of_conn rfl)
      · split
        · exact (Spares.fail _ (by decide)).before (.of_conn rfl)
        · unfold ecdhReply
          refine Spares.trans ?_ (Spares.sendPacket_with env _ _ rfl)
          exact (Spares.sendPacket_with env _ _ rfl).before (.of_errMsg rfl)

theorem handleServiceRequest_spares (env : SshEnv) (s : Ssh) (pl : Payload) :
    s.Spares (handleServiceRequest env s pl) := by
  unfold handleServiceRequest
  dsimp only
  split
  · exact .fail s (by decide)
  · split
    · exact (Spares.fail _ (by decide)).before (.of_conn rfl)
    · exact (Spares.sendPacket_with env _ _ rfl).before (.of_errMsg rfl)

theorem sendDisconnect_spares (env : SshEnv) (s : Ssh) (reason : Nat) (desc : String) :
    s.Spares (sendDisconnect env s reason desc) := .sendPacket_with env s _ rfl

theorem authReject_spares (env : SshEnv) (s : Ssh) (countIt : Bool) :
    s.Spares (authReject env s countIt) := by
  unfold authReject
  generalize hs₁ : (if countIt then _ else s) = s₁
  have h₁ : s.Spares s₁ := by
    rw [← hs₁]
    split
    · exact .of_errMsg rfl
    · exact .refl s
  dsimp only
  split
  · exact (sendDisconnect_spares env s₁ _ _).before h₁
  · exact (Spares.sendPacket env s₁ _).before h₁

/-- Only a request without its three strings is malformed. -/
theorem methodVerdict_ne_malformed (env : SshEnv) (sessionId : List UInt8) (pl : Payload) (o : Nat)
    (user service method : Payload) :
    methodVerdict env sessionId pl o user service method ≠ .malformed := by
  unfold methodVerdict pubkeyVerdict passwordVerdict pubkeySignedVerdict
  repeat' split
  all_goals
    intro h
    cases h

theorem userauthMethod_spares (env : SshEnv) (s : Ssh) (pl : Payload) (o : Nat)
    (user service method : Payload) :
    s.Spares (userauthMethod env s pl o user service method) := by
  have hfollows := userauthMethod_follows env s pl o user service method
  have hread := methodVerdict_ne_malformed env s.c.sessionId pl o user service method
  generalize methodVerdict env s.c.sessionId pl o user service method = v at hfollows hread
  cases hfollows with
  | malformed s₁ h why hs' => exact absurd rfl hread
  | probed s₁ h algo blob hs' =>
      rw [hs']
      exact (Spares.sendPacket env s₁ _).before (.quiet h.quiet)
  | refused s₁ h counted hs' =>
      rw [hs']
      exact (authReject_spares env s₁ counted).before (.quiet h.quiet)
  | granted s₁ h hs' =>
      rw [hs']
      exact (Spares.sendPacket_with env s₁ _ rfl).before (.quiet h.quiet)

theorem handleUserauthRequest_spares (env : SshEnv) (s : Ssh) (pl : Payload) :
    s.Spares (handleUserauthRequest env s pl) := by
  unfold handleUserauthRequest
  dsimp only
  split
  · exact (Spares.fail _ (by decide)).before (.of_conn (by simp))
  · split
    · exact (Spares.fail _ (by decide)).before (.of_conn (by simp))
    · split
      · exact (Spares.fail _ (by decide)).before (.of_conn (by simp))
      · exact (userauthMethod_spares env _ pl _ _ _ _).before (.of_errMsg (by simp))

theorem sshChannelFlush_spares (env : SshEnv) (s : Ssh) : s.Spares (sshChannelFlush env s) := by
  have hloop : ∀ (fuel sent : Nat) (s : Ssh), s.Spares (flushLoop env fuel sent s).2 := by
    intro fuel
    induction fuel with
    | zero => exact fun _ s => .refl s
    | succ fuel ih =>
        intro sent s
        rw [flushLoop]
        dsimp only
        split
        · exact .refl s
        · split
          · exact .refl s
          · split
            · exact .sendPacket env s _
            · exact (ih _ _).before (.sendPacket_with env s _ rfl)
  unfold sshChannelFlush
  split
  · exact .of_conn rfl
  · exact (hloop _ _ s).trans (.of_conn rfl)

theorem sshChannelClose_spares (env : SshEnv) (s : Ssh) : s.Spares (sshChannelClose env s) := by
  unfold sshChannelClose
  split
  · exact .refl s
  · refine Spares.trans ?_ (.sendPacket_with env _ _ rfl)
    refine (sshChannelFlush_spares env s).trans ?_
    generalize sshChannelFlush env s = s₁
    dsimp only
    generalize hs₂ : (if s₁.c.shellReady then _ else s₁) = s₂
    have h₂ : s₁.Spares s₂ := by
      rw [← hs₂]
      split
      · exact .sendPacket env s₁ _
      · exact .refl s₁
    refine h₂.trans ?_
    split
    · exact .sendPacket_with env s₂ _ rfl
    · exact .refl s₂

theorem sshChannelEmit_spares (env : SshEnv) (s : Ssh) (plain : List UInt8) (outmax : Nat) :
    s.Spares (sshChannelEmit env s plain outmax).2 := by
  unfold sshChannelEmit
  dsimp only
  repeat' split
  all_goals exact .of_errMsg rfl

/-- A call other than `ssh_input`. -/
theorem SshOp.run_spares {op : SshOp} {s s' : Ssh} (hop : op.isInput = false)
    (h : op.run env s = some s') : s.Spares s' := by
  cases op with
  | input data beyond fuel => cases hop
  | putc b =>
      cases h
      unfold sshChannelPutc
      repeat' split
      all_goals exact .of_conn rfl
  | flush =>
      cases h
      exact sshChannelFlush_spares env s
  | emit plain outmax =>
      cases h
      exact sshChannelEmit_spares env s plain outmax
  | close =>
      cases h
      exact sshChannelClose_spares env s
  | _ =>
      cases h
      exact .of_conn rfl

theorem handleChannelOpen_spares (env : SshEnv) (s : Ssh) (pl : Payload) :
    s.Spares (handleChannelOpen env s pl) := by
  unfold handleChannelOpen
  dsimp only
  split
  · exact .fail s (by decide)
  · split
    · exact (Spares.fail _ (by decide)).before (.of_conn rfl)
    · generalize hs₁ : (ite (Bool.and _ _ = true) _ _ : Ssh) = s₁
      have h₁ : s.Spares s₁ := by
        rw [← hs₁]
        split <;> exact .of_conn rfl
      refine h₁.trans ?_
      unfold channelOpenReply
      split
      · exact .sendPacket env s₁ _
      · exact (Spares.sendPacket env _ _).before (.of_errMsg rfl)

theorem readWinsize_spares (env : SshEnv) (s : Ssh) (pl : Payload) (o : Nat) :
    s.Spares (readWinsize env s pl o) := by
  unfold readWinsize
  dsimp only
  split
  · exact (Spares.winsize _ _ _).before (.of_conn rfl)
  · exact .refl s

theorem channelRequest_spares (env : SshEnv) (s : Ssh) (pl rtype : Payload) (o : Nat) :
    s.Spares (channelRequest env s pl rtype o).2 := by
  generalize hr : channelRequest env s pl rtype o = r
  unfold channelRequest at hr
  dsimp only at hr
  generalize hs₁ : (if rtype.len = 7 ∨ rtype.len = 5 ∨ rtype.len = 4 ∨ rtype.len = 13 then
    s.readAll rtype else s) = s₁ at hr
  have h₁ : s.Spares s₁ := by
    rw [← hs₁]
    split <;> exact .of_conn rfl
  refine h₁.trans ?_
  split at hr
  · subst hr
    generalize hs₂ : (if env.u (o + 4) ≤ pl.len then _ else s₁) = s₂
    have h₂ : s₁.Spares s₂ := by
      rw [← hs₂]
      split
      · exact (readWinsize_spares env _ pl _).before (.of_conn rfl)
      · exact .refl s₁
    exact h₂.trans (.of_errMsg rfl)
  · split at hr
    · subst hr
      exact .of_errMsg rfl
    · split at hr
      · subst hr
        exact readWinsize_spares env s₁ pl o
      · subst hr
        exact .refl s₁

theorem handleChannelRequest_spares (env : SshEnv) (s : Ssh) (pl : Payload) :
    s.Spares (handleChannelRequest env s pl) := by
  unfold handleChannelRequest
  dsimp only
  split
  · exact .refl s
  · split
    · exact .refl s
    · split
      · exact .of_conn rfl
      · generalize hs₁ : ((s.read pl 5 4).read pl (env.u (9 + env.u (pl.u32 5))) 1) = s₁
        have h₁ : s.Spares s₁ := by
          rw [← hs₁]
          exact .of_conn rfl
        have hreq := h₁.trans (channelRequest_spares env s₁ pl (pl.sub 9 (env.u (pl.u32 5)))
          (env.u (env.u (9 + env.u (pl.u32 5)) + 1)))
        split
        · exact (Spares.sendPacket env _ _).before hreq
        · exact hreq

theorem cinLoop_spares (pl : Payload) : ∀ (k o : Nat) (s : Ssh), s.Spares (cinLoop pl k o s)
  | 0, _, s => .refl s
  | k + 1, o, s => by
      rw [cinLoop]
      split
      · exact .refl s
      · exact (cinLoop_spares pl k (o + 1) _).before (.of_errMsg rfl)

theorem adjustLocalWindow_spares (env : SshEnv) (s : Ssh) (consumed : Nat) :
    s.Spares (adjustLocalWindow env s consumed) := by
  unfold adjustLocalWindow
  dsimp only
  split
  · exact .localWindow s _
  · refine (Spares.localWindow _ _).before ?_
    exact (Spares.sendPacket env _ _).before (.localWindow s _)

theorem handleChannelWindowAdjust_spares (s : Ssh) (pl : Payload) :
    s.Spares (handleChannelWindowAdjust s pl) := by
  unfold handleChannelWindowAdjust
  dsimp only
  split
  · exact .refl s
  · exact (Spares.peerWindow _ _).before (.of_conn rfl)

theorem handleChannelData_spares (env : SshEnv) (s : Ssh) (pl : Payload) :
    s.Spares (handleChannelData env s pl) := by
  unfold handleChannelData
  dsimp only
  split
  · exact .refl s
  · generalize (if env.u (9 + env.u (pl.u32 5)) > pl.len then _ else _) = dlen
    have hloop := (cinLoop_spares pl dlen 9 (s.read pl 5 4)).before
      (Spares.of_conn (s := s) rfl)
    generalize cinLoop pl dlen 9 (s.read pl 5 4) = s₁ at hloop ⊢
    exact hloop.trans (adjustLocalWindow_spares env s₁ dlen)

theorem handleSession_spares (env : SshEnv) (s : Ssh) (pl : Payload) (msg : UInt8) :
    s.Spares (handleSession env s pl msg) := by
  unfold handleSession
  split
  · exact handleChannelOpen_spares env s pl
  · split
    · exact handleChannelRequest_spares env s pl
    · split
      · exact handleChannelData_spares env s pl
      · split
        · exact handleChannelWindowAdjust_spares s pl
        · split
          · exact .of_errMsg rfl
          · split
            · refine Spares.trans ?_ (.of_errMsg rfl)
              split
              · exact sshChannelClose_spares env s
              · exact .refl s
            · exact .refl s

theorem handlePacket_spares (env : SshEnv) (s : Ssh) (pl : Payload) :
    s.Spares (handlePacket env s pl) := by
  unfold handlePacket
  dsimp only
  generalize hs₁ : (if pl.len ≠ 0 then s.read pl 0 1 else s) = s₁
  have h₁ : s.Spares s₁ := by
    rw [← hs₁]
    split <;> exact .of_conn rfl
  refine h₁.trans ?_
  split
  · exact .of_errMsg rfl
  · split
    · exact .refl s₁
    · split
      · unfold handleGlobalRequest
        dsimp only
        repeat' split
        · exact .refl s₁
        · exact (Spares.sendPacket env _ _).before (.of_conn rfl)
        · exact .of_conn rfl
        · exact .of_conn rfl
      · unfold handleByState
        split
        all_goals first | split | skip
        · exact .fail s₁ (by decide)
        · exact handleKexinit_spares env s₁ pl
        · exact .fail s₁ (by decide)
        · exact handleEcdhInit_spares env s₁ pl
        · exact .fail s₁ (by decide)
        · exact .of_errMsg rfl
        · exact .fail s₁ (by decide)
        · exact handleServiceRequest_spares env s₁ pl
        · exact handleUserauthRequest_spares env s₁ pl
        · exact .refl s₁
        · exact handleSession_spares env s₁ pl _
        all_goals exact .fail s₁ (by decide)

theorem dispatch_spares (env : SshEnv) (s : Ssh) (wire : List UInt8) (mem : Nat → UInt8) (n need : Nat) :
    s.Spares ((s.dispatch env wire mem n).finish need) := by
  have hpacket : s.Spares (s.dispatch env wire mem n) :=
    (handlePacket_spares env _ _).before (.of_errMsg rfl)
  exact hpacket.trans (.of_errMsg rfl)

/-- A turn of the loop of `ssh_input`. -/
theorem inputStep_spares (env : SshEnv) (beyond : Nat → UInt8) (s : Ssh) :
    s.Spares (inputStep env beyond s).2 := by
  generalize hr : inputStep env beyond s = r
  unfold inputStep tryVersion tryPacket tryEncrypted tryPlain at hr
  split at hr
  · split at hr
    · subst hr
      exact .refl s
    · subst hr
      exact .fail s (by decide)
    · subst hr
      dsimp only
      split <;> exact .of_errMsg rfl
  · dsimp only at hr
    repeat' split at hr
    all_goals subst hr
    · exact .refl s
    · exact .fail s (by decide)
    · exact .refl s
    · exact .fail s (by decide)
    · exact .refl s
    · exact (Spares.fail _ (by decide)).before (.of_errMsg rfl)
    · exact (dispatch_spares env _ _ _ _ _).before (.of_errMsg rfl)
    · exact .refl s
    · exact .fail s (by decide)
    · exact .refl s
    · exact .fail s (by decide)
    · exact dispatch_spares env s _ _ _ _

/-! ## Streams -/

/-- The connection takes `f` for the line or the packet in front of its buffer: a line ends at
its newline, and the size of a packet is the one its length field gives. -/
def SshConn.Reads (env : SshEnv) (c : SshConn) (f : List UInt8) : Prop :=
  if c.state = .version then ∃ line, f = line ++ [0x0A] ∧ 0x0A ∉ line
  else 4 ≤ f.length ∧ (4 ≤ c.ib.length → frameSize c.recvEncrypted (c.lengthField env) = f.length)

/-- A call of `ssh_input` with the next chunk of the stream `fs`, as `ssh_net_worker` makes it.
The frames of the stream are the ones that the connection finds. -/
structure Delivers (env : SshEnv) (fs chunks : List (List UInt8)) (s : Ssh) (data : List UInt8)
    (s' : Ssh) : Prop where
  live : s.c.live = true
  drained : s.g.ob = []
  short : data.length ≤ 512
  next : (chunks ++ [data]).flatten <+: fs.flatten
  call : ∃ beyond fuel, sshInput env beyond fuel s data = .back s' ∧
    ∀ k s₁, inputTurn env beyond s data k = some s₁ → ∀ gs f rest, fs = gs ++ f :: rest →
      (chunks ++ [data]).flatten = gs.flatten ++ s₁.c.ib → s₁.c.Reads env f

/-- The connection after the chunks of a stream, with other calls in between.  A connection that
has failed or is closed is not used any more. -/
inductive Delivery (env : SshEnv) (fs : List (List UInt8)) : List (List UInt8) → Ssh → Prop where
  | reset (g : SshShared) : Delivery env fs [] (sshReset env g)
  | feed {chunks : List (List UInt8)} {s s' : Ssh} {data : List UInt8}
      (h : Delivery env fs chunks s) (hcall : Delivers env fs chunks s data s') :
      Delivery env fs (chunks ++ [data]) s'
  | other {chunks : List (List UInt8)} {s s' : Ssh} {op : SshOp} (h : Delivery env fs chunks s)
      (hlive : s.c.live = true) (hop : op.isInput = false) (hrun : op.run env s = some s') :
      Delivery env fs chunks s'

/-- The buffer holds a proper part of the frame behind the complete ones. -/
def Parked (fs : List (List UInt8)) (fed ib : List UInt8) : Prop :=
  ∃ gs rest, fs = gs ++ rest ∧ fed = gs.flatten ++ ib ∧ Frames.PartOf ib rest

theorem Parked.pending {fs : List (List UInt8)} {fed ib : List UInt8} (h : Parked fs fed ib)
    (hne : ∀ f ∈ fs, f ≠ []) : Frames.pending fs fed.length = ib.length := by
  obtain ⟨gs, rest, rfl, rfl, hpart⟩ := h
  rw [List.length_append, Frames.pending_append]
  exact hpart.pending fun f hf => hne f (List.mem_append_right gs hf)

theorem Parked.length_le {fs : List (List UInt8)} {fed ib : List UInt8} (h : Parked fs fed ib)
    (hsize : ∀ f ∈ fs, f.length ≤ SSH_IB_SZ) : ib.length ≤ SSH_IB_SZ := by
  obtain ⟨gs, rest, rfl, rfl, rfl | ⟨f, fs', more, rfl, rfl, -⟩⟩ := h
  · exact Nat.zero_le _
  · have hle := hsize (ib ++ more) (by simp)
    rw [List.length_append] at hle
    omega

/-! ## One turn -/

/-- What is in the buffer is a proper part of the frame, or begins with it. -/
theorem front_cases {ib f rest : List UInt8} (h : ib <+: f ++ rest) :
    (∃ more, ib ++ more = f ∧ more ≠ []) ∨ ∃ more, ib = f ++ more := by
  obtain ⟨t, ht⟩ := h
  rcases List.append_eq_append_iff.mp ht with ⟨more, hf, -⟩ | ⟨more, hib, -⟩
  · rcases more with _ | ⟨b, more⟩
    · rw [List.append_nil] at hf
      exact .inr ⟨[], by rw [hf, List.append_nil]⟩
    · exact .inl ⟨b :: more, hf.symm, by simp⟩
  · exact .inr ⟨more, hib⟩

theorem versionScan_more : ∀ {ib : List UInt8} {i : Nat}, versionScan ib i = .more → 0x0A ∉ ib
  | [], _, _ => List.not_mem_nil
  | b :: ib, i, h => by
      rw [versionScan] at h
      split at h
      · cases h
      next hb =>
        split at h
        · cases h
        · rw [List.mem_cons, not_or]
          exact ⟨fun heq => hb heq.symm, versionScan_more h⟩

theorem versionScan_line : ∀ {ib : List UInt8} {i k : Nat}, versionScan ib i = .line k →
    ∃ line rest, ib = line ++ 0x0A :: rest ∧ 0x0A ∉ line ∧ k = i + line.length
  | [], _, _, h => by cases h
  | b :: ib, i, k, h => by
      rw [versionScan] at h
      split at h
      next hb =>
        cases h
        exact ⟨[], ib, by rw [hb]; rfl, List.not_mem_nil, rfl⟩
      next hb =>
        split at h
        · cases h
        · obtain ⟨line, rest, rfl, hline, rfl⟩ := versionScan_line h
          refine ⟨b :: line, rest, rfl, ?_, by rw [List.length_cons]; omega⟩
          rw [List.mem_cons, not_or]
          exact ⟨fun heq => hb heq.symm, hline⟩

/-- What a turn does to the frame in front of the buffer: it fails, waits for the rest, or takes
exactly the frame. -/
inductive Fronts (f : List UInt8) (s : Ssh) : TryRes × Ssh → Prop where
  | fails {s' : Ssh} (hst : s'.c.state = .error) : Fronts f s (.failed, s')
  | waits (hpart : ∃ more, s.c.ib ++ more = f ∧ more ≠ []) : Fronts f s (.needMore, s)
  | takes {s' : Ssh} (hib : s.c.ib = f ++ s'.c.ib) : Fronts f s (.progressed, s')

theorem tryVersion_fronts {s : Ssh} {line rest : List UInt8} (hline : 0x0A ∉ line)
    (hib : s.c.ib <+: (line ++ [0x0A]) ++ rest) : Fronts (line ++ [0x0A]) s (tryVersion s) := by
  unfold tryVersion
  split
  next hscan =>
    have hnone := versionScan_more hscan
    rcases front_cases hib with hpart | ⟨more, hfull⟩
    · exact .waits hpart
    · rw [hfull] at hnone
      exact absurd (by simp) hnone
  next hscan =>
    refine .fails ?_
    unfold Ssh.fail
    split
    · rfl
    next hst => simpa using hst
  next k hscan =>
    obtain ⟨line', rest', heq, hline', rfl⟩ := versionScan_line hscan
    rw [List.append_assoc, List.singleton_append] at hib
    obtain ⟨unread, hib⟩ := hib
    rw [heq, List.append_assoc, List.cons_append] at hib
    obtain ⟨rfl, -⟩ := Frames.delimited_inj hib hline' hline
    dsimp only
    refine .takes ?_
    have hdrop : s.c.ib.drop (0 + line'.length + 1) = rest' := by
      rw [heq, Nat.zero_add, List.drop_append]
      simp
    split
    all_goals
      simp only [Ssh.ibConsume, hdrop]
      rw [heq, List.append_assoc, List.singleton_append]

theorem refused_error {s : Ssh} {f : List UInt8} {r : TryRes × Ssh} (h : Refused s r) : Fronts f s r := by
  obtain ⟨res, s'⟩ := r
  have hres := h.res
  subst hres
  exact .fails h.state

theorem tryPacket_fronts {s : Ssh} {beyond : Nat → UInt8} {f rest : List UInt8} (h4 : 4 ≤ f.length)
    (hlen : 4 ≤ s.c.ib.length → frameSize s.c.recvEncrypted (s.c.lengthField env) = f.length)
    (hsize : f.length ≤ SSH_IB_SZ) (hib : s.c.ib <+: f ++ rest) :
    Fronts f s (tryPacket env beyond s) := by
  rcases Nat.lt_or_ge s.c.ib.length 4 with hshort | hheader
  · rw [(framed_of_short beyond hshort).waits (.inl hshort)]
    refine .waits ((front_cases hib).resolve_right ?_)
    rintro ⟨more, hfull⟩
    rw [hfull, List.length_append] at hshort
    omega
  have hframe := hlen hheader
  have hframed : FramedByLength env beyond s := by
    refine framed_of_not_wraps fun hwraps => ?_
    have hlong := hwraps.long
    omega
  rcases Classical.em (LengthOk s.c.recvEncrypted (s.c.lengthField env)) with hok | hbad
  · rcases front_cases hib with hpart | ⟨more, hfull⟩
    · obtain ⟨more, heq, hmore⟩ := hpart
      have hpos : 0 < more.length := List.length_pos_iff.mpr hmore
      rw [hframed.waits (.inr ⟨hok, by rw [hframe, ← heq, List.length_append]; omega⟩)]
      exact .waits ⟨more, heq, hmore⟩
    · have hcomplete : frameSize s.c.recvEncrypted (s.c.lengthField env) ≤ s.c.ib.length := by
        rw [hframe, hfull, List.length_append]
        omega
      rcases Classical.em (s.c.GoodFrame env (s.c.lengthField env)) with hgood | hbad
      · have htaken := hframed.takes hok hcomplete hgood
        have hib' := htaken.consumed
        obtain ⟨mem, hres, -⟩ := htaken.handled
        rw [hres] at hib' ⊢
        refine .takes ?_
        rw [hib', hframe, hfull, List.drop_left]
      · exact refused_error (hframed.rejects hok hcomplete hbad)
  · exact refused_error (hframed.refuses hheader hbad)

theorem inputStep_fronts {s : Ssh} {beyond : Nat → UInt8} {f rest : List UInt8}
    (hreads : s.c.Reads env f) (hsize : f.length ≤ SSH_IB_SZ) (hib : s.c.ib <+: f ++ rest) :
    Fronts f s (inputStep env beyond s) := by
  unfold SshConn.Reads at hreads
  unfold inputStep
  split
  next hst =>
    rw [if_pos hst] at hreads
    obtain ⟨line, rfl, hline⟩ := hreads
    exact tryVersion_fronts hline hib
  next hst =>
    rw [if_neg hst] at hreads
    exact tryPacket_fronts hreads.1 hreads.2 hsize hib

/-- Nothing happens without bytes. -/
theorem inputStep_empty {s : Ssh} (beyond : Nat → UInt8) (hib : s.c.ib = []) :
    inputStep env beyond s = (.needMore, s) := by
  unfold inputStep
  split
  · rw [tryVersion, hib]
    rfl
  · have hshort : s.c.ib.length < 4 := by
      rw [hib]
      decide
    exact (framed_of_short beyond hshort).waits (.inl hshort)

/-! ## One call -/

/-- The loop takes the frames that are complete. -/
theorem inputLoop_parked {fs : List (List UInt8)} {fed : List UInt8}
    (hsize : ∀ f ∈ fs, f.length ≤ SSH_IB_SZ) (hfed : fed <+: fs.flatten)
    {beyond : Nat → Nat → UInt8} : ∀ (fuel t : Nat) (s s' : Ssh),
      inputLoop env beyond fuel t s = .back s' →
      (∀ k s₁, turnState env beyond k t s = some s₁ → ∀ gs f rest, fs = gs ++ f :: rest →
        fed = gs.flatten ++ s₁.c.ib → s₁.c.Reads env f) →
      (∃ gs rest, fs = gs ++ rest ∧ fed = gs.flatten ++ s.c.ib) →
      s.Spares s' ∧ (s'.c.live = true → Parked fs fed s'.c.ib)
  | 0, t, s, s', h, _, _ => by
      rw [inputLoop] at h
      split at h
      · cases h
      next hlive =>
        cases h
        exact ⟨.refl s, fun hl => absurd hl hlive⟩
  | fuel + 1, t, s, s', h, hreads, hat => by
      rw [inputLoop] at h
      split at h
      next hlive =>
        have hstep := inputStep_spares env (beyond t) s
        obtain ⟨gs, rest, hfs, hfront⟩ := hat
        have hib : s.c.ib <+: rest.flatten := by
          rw [hfs, hfront, List.flatten_append] at hfed
          exact (List.prefix_append_right_inj _).mp hfed
        cases rest with
        | nil =>
            have hempty : s.c.ib = [] := List.prefix_nil.mp hib
            rw [inputStep_empty (beyond t) hempty] at h
            cases h
            exact ⟨.refl s, fun _ => ⟨gs, [], hfs, hfront, .inl hempty⟩⟩
        | cons f rest =>
            have hhere := hreads 0 s (by rw [turnState, if_pos hlive]) gs f rest hfs hfront
            have hfits := hsize f (by rw [hfs]; simp)
            have hfronts := @inputStep_fronts env s (beyond t) f rest.flatten hhere hfits hib
            generalize hr : inputStep env (beyond t) s = r at h hstep hfronts
            cases hfronts with
            | fails hst =>
                cases h
                refine ⟨hstep, fun hl => ?_⟩
                simp [SshConn.live, hst] at hl
            | waits hpart =>
                cases h
                obtain ⟨more, heq, hmore⟩ := hpart
                exact ⟨.refl s, fun _ => ⟨gs, f :: rest, hfs, hfront,
                  .inr ⟨f, rest, more, rfl, heq, hmore⟩⟩⟩
            | takes htook =>
                rename_i s₁
                obtain ⟨hspares, hpark⟩ := inputLoop_parked hsize hfed fuel (t + 1) s₁ s' h
                  (fun k s₂ hk => hreads (k + 1) s₂ (by rw [turnState_succ hlive hr, hk]))
                  ⟨gs ++ [f], rest, by rw [hfs, List.append_assoc]; rfl, by
                    rw [hfront, htook, List.flatten_append, List.flatten_singleton,
                      List.append_assoc]⟩
                exact ⟨hstep.trans hspares, hpark⟩
      next hlive =>
        cases h
        exact ⟨.refl s, fun hl => absurd hl hlive⟩

/-- A chunk that does not fit beside what is in the buffer fails the connection, and any other
one leaves an incomplete frame there. -/
theorem Delivers.overflow_iff {fs chunks : List (List UInt8)} {s s' : Ssh} {data : List UInt8}
    (hsize : ∀ f ∈ fs, f.length ≤ SSH_IB_SZ) (h : Delivers env fs chunks s data s')
    (hclean : s.c.errMsg ≠ "input overflow") (hpark : Parked fs chunks.flatten s.c.ib) :
    (s'.c.errMsg = "input overflow" ↔ SSH_IB_SZ < s.c.ib.length + data.length) ∧
    (s'.c.live = true → s.c.ib.length + data.length ≤ SSH_IB_SZ ∧
      Parked fs (chunks ++ [data]).flatten s'.c.ib) := by
  have hsz : SSH_IB_SZ = 2048 := rfl
  obtain ⟨beyond, fuel, hcall, hreads⟩ := h.call
  have hshort := h.short
  have hst : s.c.state ≠ .error := by
    intro hst
    have hlive := h.live
    simp [SshConn.live, hst] at hlive
  rcases Nat.lt_or_ge SSH_IB_SZ (s.c.ib.length + data.length) with hlong | hfits
  · -- the sum does not wrap
    have hib := hpark.length_le hsize
    have hu : env.u (s.c.ib.length + data.length) = s.c.ib.length + data.length :=
      env.u_small (by omega)
    rw [sshInput, if_neg hst, hu, if_pos hlong] at hcall
    cases hcall
    rw [Ssh.fail, if_pos hst]
    exact ⟨iff_of_true rfl hlong, fun hl => absurd hl (by simp [SshConn.live])⟩
  · rw [sshInput_enters hst hfits] at hcall
    obtain ⟨gs, rest, hfs, hfront, -⟩ := hpark
    obtain ⟨hspares, hpark'⟩ := inputLoop_parked hsize h.next fuel 0 _ s' hcall
      (fun k s₁ hk => hreads k s₁ (by
        rw [inputTurn, if_neg (not_or.mpr ⟨hst, Nat.not_lt.mpr hfits⟩), hk]))
      ⟨gs, rest, hfs, by rw [List.flatten_append, List.flatten_singleton, hfront,
        List.append_assoc]⟩
    exact ⟨iff_of_false (hspares hclean) (by omega), fun hl => ⟨hfits, hpark' hl⟩⟩

/-! ## Runs -/

theorem paced_append {fs chunks : List (List UInt8)} {data : List UInt8} :
    Paced fs (chunks ++ [data]) ↔ Paced fs chunks ∧
      Frames.pending fs chunks.flatten.length + data.length ≤ SSH_IB_SZ := by
  constructor
  · refine fun h => ⟨fun pre chunk post heq => ?_, h chunks data [] rfl⟩
    exact h pre chunk (post ++ [data]) (by rw [heq, List.append_assoc, List.cons_append])
  · rintro ⟨h, hlast⟩ pre chunk post heq
    rcases List.eq_nil_or_concat post with rfl | ⟨post, last, rfl⟩
    · obtain ⟨rfl, hdata⟩ := List.append_inj' heq rfl
      cases hdata
      exact hlast
    · rw [List.concat_eq_append, ← List.cons_append, ← List.append_assoc] at heq
      obtain ⟨hpre, -⟩ := List.append_inj' heq rfl
      exact h pre chunk post hpre

theorem sshReset_spares (env : SshEnv) (g : SshShared) :
    (sshReset env g).c.errMsg ≠ "input overflow" ∧ (sshReset env g).c.ib = [] := by
  constructor
  · unfold sshReset
    dsimp only
    generalize ourKexinit _ = iS
    generalize ascii SERVER_ID_CRLF = line
    refine Spares.sendUnenc env _ iS ?_
    refine Spares.obAppend env (Ssh.note _ (.ident line)) line ?_
    change "" ≠ "input overflow"
    decide
  · obtain ⟨s₀, hc, htame⟩ := sshReset_tame env g
    generalize sshReset env g = s at htame
    have hib : s.c.ib = s₀.c.ib := congrArg Prod.fst htame.core
    rw [hib, hc]
    rfl

/-- Only `ssh_input` moves in the buffer. -/
theorem SshOp.run_ib {op : SshOp} {s s' : Ssh} (hop : op.isInput = false)
    (h : op.run env s = some s') : s'.c.ib = s.c.ib := by
  exact congrArg Prod.fst (SshOp.run_tame hop h).core

theorem Delivery.parked {fs chunks : List (List UInt8)} {s : Ssh}
    (hsize : ∀ f ∈ fs, f ≠ [] ∧ f.length ≤ SSH_IB_SZ) (h : Delivery env fs chunks s) :
    (s.c.errMsg = "input overflow" ↔ ¬ Paced fs chunks) ∧
    (s.c.live = true → Paced fs chunks ∧ Parked fs chunks.flatten s.c.ib) := by
  induction h with
  | reset g =>
      obtain ⟨hclean, hib⟩ := sshReset_spares env g
      have hpaced : Paced fs [] := by
        intro pre chunk post heq
        exact absurd heq (by simp)
      exact ⟨iff_of_false hclean (not_not.mpr hpaced), fun _ => ⟨hpaced, [], fs, rfl, by
        rw [hib]
        rfl, .inl hib⟩⟩
  | @feed chunks s s' data h hcall ih =>
      obtain ⟨hpaced, hpark⟩ := ih.2 hcall.live
      have hclean : s.c.errMsg ≠ "input overflow" := fun heq => ih.1.mp heq hpaced
      obtain ⟨hiff, hpark'⟩ := hcall.overflow_iff (fun f hf => (hsize f hf).2) hclean hpark
      rw [← hpark.pending fun f hf => (hsize f hf).1] at hiff hpark'
      refine ⟨?_, fun hlive => ?_⟩
      · rw [hiff, paced_append, not_and, Nat.not_le]
        exact ⟨fun hlong _ => hlong, fun hlong => hlong hpaced⟩
      · obtain ⟨hfits, hpark'⟩ := hpark' hlive
        exact ⟨paced_append.mpr ⟨hpaced, hfits⟩, hpark'⟩
  | @other chunks s s' op h hlive hop hrun ih =>
      obtain ⟨hpaced, hpark⟩ := ih.2 hlive
      have hclean : s.c.errMsg ≠ "input overflow" := fun heq => ih.1.mp heq hpaced
      refine ⟨iff_of_false (SshOp.run_spares hop hrun hclean) (not_not.mpr hpaced), fun _ => ?_⟩
      rw [SshOp.run_ib hop hrun]
      exact ⟨hpaced, hpark⟩

/-- A stream of lines and packets that each fit the buffer, delivered in chunks of at most 512
bytes, fails with "input overflow" if and only if one of the chunks does not fit beside the
incomplete frame in front of it. -/
theorem input_overflow_iff_not_paced {env : SshEnv} {fs chunks : List (List UInt8)} {s : Ssh}
    (hsize : ∀ f ∈ fs, f ≠ [] ∧ f.length ≤ SSH_IB_SZ) (h : Delivery env fs chunks s) :
    s.c.errMsg = "input overflow" ↔ ¬ Paced fs chunks := (h.parked hsize).1

end

/-! ## A legal packet that is refused -/

/-- An `IGNORE` packet of 2048 bytes. -/
def fullFrame : List UInt8 := plainFrame (MSG_IGNORE :: List.replicate 2037 0)

/-- An identification line and two packets of the largest size. -/
def fullStream : List (List UInt8) := [greeting [], fullFrame, fullFrame]

theorem fullFrame_eq : fullFrame =
    be32 2044 ++ ([5] ++ (MSG_IGNORE :: List.replicate 2037 0) ++ List.replicate 5 0) := by
  have hlen : (MSG_IGNORE :: List.replicate 2037 (0 : UInt8)).length = 2038 := by
    rw [List.length_cons, List.length_replicate]
  unfold fullFrame plainFrame
  dsimp only
  rw [hlen, List.append_assoc, List.append_assoc, List.append_assoc]
  rfl

theorem length_fullFrame : fullFrame.length = 2048 := by
  have hlen : (MSG_IGNORE :: List.replicate 2037 (0 : UInt8)).length = 2038 := by
    rw [List.length_cons, List.length_replicate]
  rw [fullFrame_eq, List.length_append, List.length_append, List.length_append, hlen]
  rfl

theorem fullStream_sizes : ∀ f ∈ fullStream, f ≠ [] ∧ f.length ≤ SSH_IB_SZ := by
  have hfull : fullFrame ≠ [] ∧ fullFrame.length ≤ SSH_IB_SZ := by
    rw [← List.length_pos_iff, length_fullFrame]
    decide
  intro f hf
  simp only [fullStream, List.mem_cons, List.not_mem_nil, or_false] at hf
  rcases hf with rfl | rfl | rfl
  · decide
  · exact hfull
  · exact hfull

/-- A connection that waits for the rest of the first packet. -/
structure Ssh.Midway (s : Ssh) (n : Nat) : Prop where
  state : s.c.state = .expectKexinit
  plain : s.c.recvEncrypted = false
  drained : s.g.ob = []
  ib : s.c.ib = fullFrame.take n

theorem Ssh.Midway.live {s : Ssh} {n : Nat} (h : s.Midway n) : s.c.live = true := by
  simp [SshConn.live, h.state]

/-- Where the stream can be cut. -/
theorem fullStream_split {gs rest : List (List UInt8)} {f : List UInt8}
    (h : fullStream = gs ++ f :: rest) :
    (gs = [] ∧ f = greeting []) ∨ (gs = [greeting []] ∧ f = fullFrame) ∨
      (gs = [greeting [], fullFrame] ∧ f = fullFrame) := by
  rcases gs with _ | ⟨g₁, _ | ⟨g₂, _ | ⟨g₃, gs⟩⟩⟩
  · cases h
    exact .inl ⟨rfl, rfl⟩
  · cases h
    exact .inr (.inl ⟨rfl, rfl⟩)
  · cases h
    exact .inr (.inr ⟨rfl, rfl⟩)
  · have hlen := congrArg List.length h
    simp [fullStream] at hlen

/-- The bytes in front of a frame of the stream. -/
theorem fullStream_at {gs rest : List (List UInt8)} {f : List UInt8}
    (h : fullStream = gs ++ f :: rest) :
    (gs.flatten.length = 0 ∧ f = greeting []) ∨ (16 ≤ gs.flatten.length ∧ f = fullFrame) := by
  have hline : (greeting []).length = 16 := by decide
  rcases fullStream_split h with ⟨rfl, rfl⟩ | ⟨rfl, rfl⟩ | ⟨rfl, rfl⟩
  · exact .inl ⟨rfl, rfl⟩
  · exact .inr ⟨by simp [hline], rfl⟩
  · exact .inr ⟨by simp [hline], rfl⟩

theorem fullStream_prefix (n : Nat) :
    greeting [] ++ fullFrame.take n <+: fullStream.flatten := by
  refine ⟨fullFrame.drop n ++ fullFrame, ?_⟩
  rw [List.append_assoc, ← List.append_assoc (fullFrame.take n), List.take_append_drop]
  simp only [fullStream, List.flatten_cons, List.flatten_nil, List.append_nil]

theorem lengthField_fullFrame {c : SshConn} {n : Nat} (hplain : c.recvEncrypted = false)
    (hib : c.ib = fullFrame.take n) (h4 : 4 ≤ n) : c.lengthField sampleEnv = 2044 := by
  have hlen : 4 ≤ c.ib.length := by
    rw [hib, List.length_take, length_fullFrame]
    omega
  have hhead : slice (c.mem fun _ => 0) 0 4 = be32 2044 := by
    rw [slice_mem c _ (by omega), List.drop_zero, hib, List.take_take, Nat.min_eq_left h4,
      fullFrame_eq, List.take_left' (length_be32 _)]
  rw [SshConn.lengthField, hplain, if_neg Bool.false_ne_true]
  exact rd32_be32 (by decide) (c.mem fun _ => 0) hhead

/-- A chunk in the middle of the first packet. -/
theorem Ssh.Midway.feed {s : Ssh} {n : Nat} {chunks : List (List UInt8)} (h : s.Midway n)
    (hn : n + 511 ≤ 2044) (hfed : chunks.flatten = greeting [] ++ fullFrame.take n) :
    ∃ s' data, Delivers sampleEnv fullStream chunks s data s' ∧ s'.Midway (n + 511) ∧
      (chunks ++ [data]).flatten = greeting [] ++ fullFrame.take (n + 511) := by
  have hsz : SSH_IB_SZ = 2048 := rfl
  have hst : s.c.state ≠ .error := by
    rw [h.state]
    decide
  have hib : s.c.ib ++ (fullFrame.drop n).take 511 = fullFrame.take (n + 511) := by
    rw [h.ib, List.take_add]
  have hfed' : (chunks ++ [(fullFrame.drop n).take 511]).flatten =
      greeting [] ++ fullFrame.take (n + 511) := by
    rw [List.flatten_append, List.flatten_singleton, hfed, List.append_assoc, List.take_add]
  have hlen : s.c.ib.length + ((fullFrame.drop n).take 511).length ≤ SSH_IB_SZ := by
    rw [← List.length_append, hib, List.length_take]
    omega
  generalize hs' : ({ s with c := { s.c with ib := s.c.ib ++ (fullFrame.drop n).take 511 } } : Ssh)
    = s'
  have hmid : s'.Midway (n + 511) := by
    rw [← hs']
    exact ⟨h.state, h.plain, h.drained, hib⟩
  have hfield : frameSize s'.c.recvEncrypted (s'.c.lengthField sampleEnv) = 2048 := by
    rw [lengthField_fullFrame hmid.plain hmid.ib (by omega), hmid.plain]
    rfl
  -- the packet is not complete
  have hstep : inputStep sampleEnv (fun _ => 0) s' = (.needMore, s') := by
    have hlong : ¬ s'.c.LengthWraps sampleEnv fun _ => 0 := by
      intro hwraps
      have hlong := hwraps.long
      omega
    have hok : LengthOk s'.c.recvEncrypted (s'.c.lengthField sampleEnv) := by
      refine ⟨?_, by omega, ?_⟩
      · rw [lengthField_fullFrame hmid.plain hmid.ib (by omega)]
        decide
      · rw [hmid.plain]
        intro henc
        cases henc
    have hshort : s'.c.ib.length < 2048 := by
      rw [hmid.ib, List.length_take]
      omega
    rw [inputStep, if_neg (by rw [hmid.state]; decide)]
    exact (framed_of_not_wraps hlong).waits (.inr ⟨hok, by omega⟩)
  refine ⟨s', _, ⟨h.live, h.drained, ?_, ?_, fun _ _ => 0, 1, ?_, ?_⟩, hmid, hfed'⟩
  · rw [List.length_take]
    omega
  · rw [hfed']
    exact fullStream_prefix (n + 511)
  · rw [sshInput_enters hst hlen, hs', inputLoop, if_pos hmid.live, hstep]
  · intro k s₁ hk gs f rest hfs hfront
    have hs₁ : s₁ = s' := by
      rw [inputTurn, if_neg (not_or.mpr ⟨hst, Nat.not_lt.mpr hlen⟩), hs'] at hk
      cases k with
      | zero =>
          rw [turnState, if_pos hmid.live] at hk
          exact (Option.some.inj hk).symm
      | succ k =>
          rw [turnState, if_pos hmid.live, hstep] at hk
          cases hk
    rw [hs₁, hfed', hmid.ib] at hfront
    have hf : f = fullFrame := by
      rcases fullStream_at hfs with ⟨hgs, -⟩ | ⟨-, hf⟩
      · have hbytes := congrArg List.length hfront
        have hline : (greeting []).length = 16 := by decide
        rw [List.length_append, hline, List.length_append, hgs] at hbytes
        omega
      · exact hf
    rw [hs₁, hf, SshConn.Reads, if_neg (by rw [hmid.state]; decide), length_fullFrame]
    exact ⟨by omega, fun _ => hfield⟩

/-- The turn that takes the identification line. -/
theorem inputStep_greeting {s : Ssh} (beyond : Nat → UInt8) (hst : s.c.state = .version)
    (hplain : s.c.recvEncrypted = false) (hob : s.g.ob = []) (hib : s.c.ib = greeting []) :
    ∃ s', inputStep sampleEnv beyond s = (.progressed, s') ∧ s'.Midway 0 := by
  have hscan : versionScan s.c.ib 0 = .line 15 := by
    rw [hib]
    decide
  have hline : (versionLine s.c.ib 15).length ≥ 4 ∧
      (versionLine s.c.ib 15).take 4 = ascii "SSH-" := by
    rw [hib]
    decide
  rw [inputStep, if_pos hst, tryVersion, hscan]
  dsimp only
  rw [if_pos hline]
  refine ⟨_, rfl, rfl, hplain, hob, ?_⟩
  change s.c.ib.drop 16 = []
  rw [hib]
  decide

/-- The identification line, after the server has sent its own. -/
theorem fullStream_start : ∃ s, Delivery sampleEnv fullStream [greeting []] s ∧ s.Midway 0 := by
  have hline : (greeting []).length = 16 := by decide
  have hrun : (((SshOp.output 2048).run sampleEnv (sshReset sampleEnv SshShared.zero)).map
      fun s => (s.c.state, s.c.recvEncrypted, s.g.ob, s.c.ib)) = some (.version, false, [], []) := by
    decide +kernel
  obtain ⟨s, hs, hfields⟩ := Option.map_eq_some_iff.mp hrun
  simp only [Prod.mk.injEq] at hfields
  obtain ⟨hst, hplain, hob, hib⟩ := hfields
  have hlive : (sshReset sampleEnv SshShared.zero).c.live = true := by decide +kernel
  have hreach : Delivery sampleEnv fullStream [] s := (Delivery.reset _).other hlive rfl hs
  have herr : s.c.state ≠ .error := by
    rw [hst]
    decide
  have hfits : s.c.ib.length + (greeting []).length ≤ SSH_IB_SZ := by
    rw [hib]
    decide
  generalize hs₀ : ({ s with c := { s.c with ib := s.c.ib ++ greeting [] } } : Ssh) = s₀
  have h₀ : s₀.c.state = .version ∧ s₀.c.recvEncrypted = false ∧ s₀.g.ob = [] ∧
      s₀.c.ib = greeting [] := by
    rw [← hs₀]
    exact ⟨hst, hplain, hob, by simp [hib]⟩
  have hlive₀ : s₀.c.live = true := by simp [SshConn.live, h₀.1]
  obtain ⟨s₁, hstep, hmid⟩ := inputStep_greeting (fun _ => 0) h₀.1 h₀.2.1 h₀.2.2.1 h₀.2.2.2
  have hempty : s₁.c.ib = [] := hmid.ib
  have hwait := @inputStep_empty sampleEnv s₁ (fun _ => 0) hempty
  refine ⟨s₁, Delivery.feed hreach ⟨by simp [SshConn.live, hst], hob, by omega, ?_,
    fun _ _ => 0, 2, ?_, ?_⟩, hmid⟩
  · exact fullStream_prefix 0
  · rw [sshInput_enters herr hfits, hs₀, inputLoop, if_pos hlive₀, hstep]
    dsimp only
    rw [inputLoop, if_pos hmid.live, hwait]
  · intro k s₂ hk gs f rest hfs hfront
    rw [inputTurn, if_neg (not_or.mpr ⟨herr, Nat.not_lt.mpr hfits⟩), hs₀] at hk
    have hbytes := congrArg List.length hfront
    rw [List.nil_append, List.flatten_singleton, List.length_append, hline] at hbytes
    cases k with
    | zero =>
        rw [turnState, if_pos hlive₀] at hk
        cases hk
        rw [h₀.2.2.2, hline] at hbytes
        rcases fullStream_at hfs with ⟨-, rfl⟩ | ⟨hgs, -⟩
        · rw [SshConn.Reads, if_pos h₀.1]
          exact ⟨ascii "SSH-2.0-client\r", by decide, by decide⟩
        · omega
    | succ k =>
        rw [@turnState_succ sampleEnv (fun _ _ => 0) 0 s₀ s₁ hlive₀ hstep k] at hk
        cases k with
        | zero =>
            rw [turnState, if_pos hmid.live] at hk
            cases hk
            rw [hempty, List.length_nil] at hbytes
            rcases fullStream_at hfs with ⟨hgs, -⟩ | ⟨-, rfl⟩
            · omega
            · rw [SshConn.Reads, if_neg (by rw [hmid.state]; decide), length_fullFrame, hempty]
              exact ⟨by omega, fun h4 => absurd h4 (by decide)⟩
        | succ k =>
            rw [turnState, if_pos hmid.live, hwait] at hk
            cases hk

/-- All but the last four bytes of the packet, in four chunks. -/
theorem fullStream_delivery : ∃ chunks s, Delivery sampleEnv fullStream chunks s ∧
    s.Midway 2044 ∧ chunks.flatten = greeting [] ++ fullFrame.take 2044 := by
  obtain ⟨s₀, h₀, hmid₀⟩ := fullStream_start
  have hfed₀ : [greeting []].flatten = greeting [] ++ fullFrame.take 0 := by
    rw [List.take_zero, List.append_nil, List.flatten_singleton]
  obtain ⟨s₁, d₁, hcall₁, hmid₁, hfed₁⟩ := hmid₀.feed (by decide) hfed₀
  obtain ⟨s₂, d₂, hcall₂, hmid₂, hfed₂⟩ := hmid₁.feed (by decide) hfed₁
  obtain ⟨s₃, d₃, hcall₃, hmid₃, hfed₃⟩ := hmid₂.feed (by decide) hfed₂
  obtain ⟨s₄, d₄, hcall₄, hmid₄, hfed₄⟩ := hmid₃.feed (by decide) hfed₃
  exact ⟨_, s₄, (((h₀.feed hcall₁).feed hcall₂).feed hcall₃).feed hcall₄, hmid₄, hfed₄⟩

/-- The stream so far is delivered without failure, and the theorem says so. -/
theorem input_overflow_iff_not_paced_fullStream :
    ∃ chunks s, Delivery sampleEnv fullStream chunks s ∧
      (s.c.errMsg = "input overflow" ↔ ¬ Paced fullStream chunks) := by
  obtain ⟨chunks, s, h, -⟩ := fullStream_delivery
  exact ⟨chunks, s, h, input_overflow_iff_not_paced fullStream_sizes h⟩

/-- The last four bytes of the packet come together with 508 of the next one. -/
theorem full_packet_overflows : ∃ fs chunks s,
    (∀ f ∈ fs, f ≠ [] ∧ f.length ≤ SSH_IB_SZ) ∧ Delivery sampleEnv fs chunks s ∧
      s.c.errMsg = "input overflow" := by
  obtain ⟨chunks, s, h, hmid, hfed⟩ := fullStream_delivery
  have hst : s.c.state ≠ .error := by
    rw [hmid.state]
    decide
  have hlen : ((fullFrame.drop 2044 ++ fullFrame).take 512).length = 512 := by
    rw [List.length_take, List.length_append, length_fullFrame]
    exact Nat.min_eq_left (by omega)
  have hlong : SSH_IB_SZ <
      s.c.ib.length + ((fullFrame.drop 2044 ++ fullFrame).take 512).length := by
    rw [hlen, hmid.ib, List.length_take, length_fullFrame]
    decide
  have hcall : Delivers sampleEnv fullStream chunks s
      ((fullFrame.drop 2044 ++ fullFrame).take 512) (s.fail "input overflow") := by
    refine ⟨hmid.live, hmid.drained, by omega, ?_, fun _ _ => 0, 1, ?_, ?_⟩
    · refine ⟨(fullFrame.drop 2044 ++ fullFrame).drop 512, ?_⟩
      rw [List.flatten_append, List.flatten_singleton, hfed, List.append_assoc,
        List.take_append_drop, List.append_assoc, ← List.append_assoc (fullFrame.take 2044),
        List.take_append_drop]
      simp only [fullStream, List.flatten_cons, List.flatten_nil, List.append_nil]
    · have hu : SSH_IB_SZ < sampleEnv.u (s.c.ib.length +
          ((fullFrame.drop 2044 ++ fullFrame).take 512).length) := by
        rw [hlen, hmid.ib, List.length_take, length_fullFrame]
        decide
      rw [sshInput, if_neg hst]
      exact if_pos hu
    · intro k s₁ hk
      rw [inputTurn, if_pos (.inr hlong)] at hk
      cases hk
  refine ⟨fullStream, _, _, fullStream_sizes, h.feed hcall, ?_⟩
  rw [Ssh.fail, if_pos hst]

end Dossh
