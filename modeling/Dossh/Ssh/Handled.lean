import Dossh.Ssh.Credential

/-!
# What a packet can do

`Handled env pl s s'` lists everything `handle_packet` can do to a connection, as far as
authentication and the decoding of later packets depend on it.  The handshake moves on in one
way from each of its states.  Everything else is tame, or works on the channel of a session.

The runs of a connection are sequences of calls of `ssh.h`, from `ssh_reset` on.  Between two
calls the shared part can change in any way, since it serves the other connections too.
-/

namespace Dossh

open Ssh

/-- What `handle_packet` can do. -/
inductive Handled (env : SshEnv) (pl : Payload) (s s' : Ssh) : Prop where
  | tame (h : s.Tame s')
  | kexinit (hst : s.c.state = .expectKexinit) (h : s.Calm s') (hk : s'.c.keys = s.c.keys)
      (hst' : s'.c.state = .expectEcdhInit)
  | ecdh (hst : s.c.state = .expectEcdhInit) (h : s.Calm s')
      (hst' : s'.c.state = .expectClientNewkeys)
  | newkeys (hst : s.c.state = .expectClientNewkeys)
      (h : s'.c = { s.c with recvEncrypted := true, state := .expectServiceRequest })
  | service (hst : s.c.state = .expectServiceRequest) (h : s.Calm s')
      (hk : s'.c.keys = s.c.keys) (hst' : s'.c.state = .auth)
  | granted (hst : s.c.state = .auth) (h : s.Grants s')
      (hg : pl.len ≤ SSH_IB_SZ → Granted env s.c.sessionId pl.bytes)
  | session (hst : s.c.state = .session) (h : s.Works s')

theorem handleByState_handled (env : SshEnv) (s : Ssh) (pl : Payload) :
    Handled env pl s (handleByState env s pl pl.msg) := by
  unfold handleByState
  split
  next hst =>
    split
    · exact .tame (.fail s _)
    · rcases handleKexinit_cases env s pl with h | ⟨h, hk, hst'⟩
      · exact .tame h
      · exact .kexinit hst h hk hst'
  next hst =>
    split
    · exact .tame (.fail s _)
    · rcases handleEcdhInit_cases env s pl with h | ⟨h, hst'⟩
      · exact .tame h
      · exact .ecdh hst h hst'
  next hst =>
    split
    · exact .tame (.fail s _)
    · exact .newkeys hst rfl
  next hst =>
    split
    · exact .tame (.fail s _)
    · rcases handleServiceRequest_cases env s pl with h | ⟨h, hk, hst'⟩
      · exact .tame h
      · exact .service hst h hk hst'
  next hst =>
    split
    next hmsg =>
      rcases handleUserauthRequest_cases env s hmsg with h | ⟨h, hg⟩
      · exact .tame h
      · exact .granted hst h hg
    next => exact .tame (.refl s)
  next hst => exact .session hst (handleSession_works env s pl _)
  all_goals exact .tame (.fail s _)

/-- What came before does not matter if it left the connection alone. -/
theorem Handled.of_conn {env : SshEnv} {pl : Payload} {s s₁ s' : Ssh} (h : Handled env pl s₁ s')
    (hc : s₁.c = s.c) : Handled env pl s s' := by
  have hfirst : s.Tame s₁ := .of_conn hc
  cases h with
  | tame h => exact .tame (hfirst.trans h)
  | kexinit hst h hk hst' =>
      exact .kexinit (by rw [← hc, hst]) (hfirst.toCalm.trans h) (hk.trans hfirst.keys) hst'
  | ecdh hst h hst' => exact .ecdh (by rw [← hc, hst]) (hfirst.toCalm.trans h) hst'
  | newkeys hst h => exact .newkeys (by rw [← hc, hst]) (by rw [h, hc])
  | service hst h hk hst' =>
      exact .service (by rw [← hc, hst]) (hfirst.toCalm.trans h) (hk.trans hfirst.keys) hst'
  | granted hst h hg => exact .granted (by rw [← hc, hst]) (h.before hfirst) (by rw [← hc]; exact hg)
  | session hst h => exact .session (by rw [← hc, hst]) (h.before hfirst.works)

theorem handlePacket_handled (env : SshEnv) (s : Ssh) (pl : Payload) :
    Handled env pl s (handlePacket env s pl) := by
  unfold handlePacket
  dsimp only
  generalize hs₁ : (if pl.len ≠ 0 then s.read pl 0 1 else s) = s₁
  have hc : s₁.c = s.c := by
    rw [← hs₁]
    split <;> rfl
  refine Handled.of_conn ?_ hc
  split
  · exact .tame (.closed s₁)
  · split
    · exact .tame (.refl s₁)
    · split
      · exact .tame (handleGlobalRequest_tame env s₁ pl)
      · exact handleByState_handled env s₁ pl

namespace Handled

variable {env : SshEnv} {pl : Payload} {s s' : Ssh}

/-- A packet leaves the input buffer and its sequence number to the decoder. -/
theorem input (h : Handled env pl s s') : s'.c.ib = s.c.ib ∧ s'.c.recvSeq = s.c.recvSeq := by
  have hcore : s'.c.core = s.c.core → s'.c.ib = s.c.ib ∧ s'.c.recvSeq = s.c.recvSeq := by
    intro hc
    simp only [SshConn.core, Prod.mk.injEq] at hc
    exact ⟨hc.1, hc.2.1⟩
  cases h with
  | tame h => exact hcore h.core
  | kexinit hst h hk hst' => exact hcore h.core
  | ecdh hst h hst' => exact hcore h.core
  | newkeys hst h => rw [h]; exact ⟨rfl, rfl⟩
  | service hst h hk hst' => exact hcore h.core
  | granted hst h hg =>
      obtain ⟨s₁, htame, hc⟩ := h
      rw [hc]
      have := htame.core
      simp only [SshConn.core, Prod.mk.injEq] at this
      exact ⟨this.1, this.2.1⟩
  | session hst h => exact hcore h.core

/-- The events of a packet are frames and keystrokes. -/
theorem logs (h : Handled env pl s s') : s.Logs SshEvent.inner s' := by
  cases h with
  | tame h => exact h.works.logs
  | kexinit hst h hk hst' => exact h.logs.mono fun _ => SshEvent.inner_of_isFrame
  | ecdh hst h hst' => exact h.logs.mono fun _ => SshEvent.inner_of_isFrame
  | newkeys hst h => exact ⟨[], by rw [h]; rfl, by simp⟩
  | service hst h hk hst' => exact h.logs.mono fun _ => SshEvent.inner_of_isFrame
  | granted hst h hg =>
      obtain ⟨s₁, htame, hc⟩ := h
      obtain ⟨es, htr, hes⟩ := htame.works.logs
      exact ⟨es, by rw [hc]; exact htr, hes⟩
  | session hst h => exact h.logs

end Handled

/-! ## One turn of the input loop -/

/-- The event `try_packet` records before it calls `handle_packet`. -/
def Ssh.packetEvent (s : Ssh) (wire payload : List UInt8) : SshEvent :=
  .packet s.c.state s.c.recvEncrypted s.c.recvSeq s.c.sessionId wire payload

theorem dispatch_handled (env : SshEnv) (s : Ssh) (wire : List UInt8) (mem : Nat → UInt8)
    (n : Nat) :
    Handled env ⟨mem, 0, n⟩ (s.note (s.packetEvent wire (slice mem 0 n)))
      (s.dispatch env wire mem n) :=
  Handled.of_conn
    (handlePacket_handled env { s.note (s.packetEvent wire (slice mem 0 n)) with reads := [] } _) rfl

/-- The length field of the packet in front of the buffer, as the plaintext branch reads it. -/
def SshConn.plainLen (env : SshEnv) (c : SshConn) (beyond : Nat → UInt8) : Nat :=
  env.u (rd32 (c.mem beyond) 0)

/-- The three results of the plaintext branch. -/
theorem tryPlain_cases (env : SshEnv) (beyond : Nat → UInt8) (s : Ssh) :
    tryPlain env beyond s = (.needMore, s) ∨
    (∃ why, tryPlain env beyond s = (.failed, s.fail why)) ∨
    (4 ≤ s.c.ib.length ∧ 1 ≤ s.c.plainLen env beyond ∧
      env.u (4 + s.c.plainLen env beyond) ≤ s.c.ib.length ∧
      ∃ n ≤ s.c.plainLen env beyond, tryPlain env beyond s = (.progressed,
        (s.dispatch env (s.c.ib.take (env.u (4 + s.c.plainLen env beyond)))
          (fun k => s.c.mem beyond (5 + k)) n).finish (env.u (4 + s.c.plainLen env beyond)))) := by
  unfold tryPlain
  dsimp only
  split
  · exact .inl rfl
  next h4 =>
    split
    · exact .inr (.inl ⟨_, rfl⟩)
    next hlen =>
      split
      · exact .inl rfl
      next hneed =>
        split
        · exact .inr (.inl ⟨_, rfl⟩)
        next hpad =>
          unfold SshConn.plainLen
          exact .inr (.inr ⟨by omega, by omega, by omega, _, by omega, rfl⟩)

/-- The length is acceptable, the packet is complete, and its tag is right. -/
structure SshConn.Verified (env : SshEnv) (c : SshConn) : Prop where
  len : 8 ≤ c.encLen env
  fits : 4 + c.encLen env + 16 ≤ SSH_IB_SZ
  complete : 4 + c.encLen env + 16 ≤ c.ib.length
  tag : env.crypto.poly1305 (c.ib.take (4 + c.encLen env))
      (env.crypto.polykey (c.ekC2s.take 32) (seqbuf8 c.recvSeq)) =
    (c.ib.drop (4 + c.encLen env)).take 16

/-- Memory inside the filled part of the buffer. -/
theorem slice_mem (c : SshConn) (beyond : Nat → UInt8) {o n : Nat} (h : o + n ≤ c.ib.length) :
    slice (c.mem beyond) o n = (c.ib.drop o).take n := by
  apply List.ext_getElem
  · simp
    omega
  · intro k h1 h2
    rw [length_slice] at h1
    have hk : o + k < c.ib.length := by omega
    simp [slice, SshConn.mem, hk]

/-- The results of the encrypted branch. -/
theorem tryEncrypted_cases (env : SshEnv) (beyond : Nat → UInt8) (s : Ssh) :
    tryEncrypted env beyond s = (.needMore, s) ∨
    (∃ why, tryEncrypted env beyond s = (.failed, s.fail why)) ∨
    tryEncrypted env beyond s = (.wild, s) ∨
    (s.c.Verified env ∧
      ((∃ why, tryEncrypted env beyond s = (.failed, { s with c := s.c.opened env }.fail why)) ∨
        ∃ padlen, padlen = ((s.c.opened env).mem beyond 4).toNat ∧
          padlen + 1 ≤ s.c.encLen env ∧
          tryEncrypted env beyond s = (.progressed,
            ({ s with c := s.c.opened env }.dispatch env (s.c.ib.take (4 + s.c.encLen env + 16))
              (fun k => (s.c.opened env).mem beyond (5 + k))
              (s.c.encLen env - 1 - padlen)).finish (4 + s.c.encLen env + 16)))) := by
  have hsz : SSH_IB_SZ = 2048 := rfl
  unfold tryEncrypted
  generalize hlen : s.c.encLen env = len
  dsimp only
  split
  · exact .inl rfl
  next h4 =>
    split
    · exact .inr (.inl ⟨_, rfl⟩)
    next hok =>
      split
      · exact .inl rfl
      next hneed =>
        split
        · exact .inr (.inl ⟨_, rfl⟩)
        next htag =>
          split
          · exact .inr (.inr (.inl rfl))
          next hfits =>
            have hu : env.u (4 + len + 16) = 4 + len + 16 := env.u_small (by omega)
            have hu' : env.u (4 + len) = 4 + len := env.u_small (by omega)
            rw [hu] at hneed hok
            rw [SshConn.encTag, hlen, hu', slice_mem _ _ (by omega), slice_mem _ _ (by omega),
              List.drop_zero, not_not] at htag
            have hv : s.c.Verified env := by
              constructor
              all_goals rw [hlen]
              · omega
              · omega
              · omega
              · exact htag
            refine .inr (.inr (.inr ⟨hv, ?_⟩))
            split
            · exact .inl ⟨_, rfl⟩
            next hpad => exact .inr ⟨_, rfl, by omega, by rw [hu]⟩

end Dossh
