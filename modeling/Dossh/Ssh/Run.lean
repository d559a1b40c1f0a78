import Dossh.Ssh.Handled

/-!
# Runs of a connection

One turn of the loop of `ssh_input` as a relation, and the states a connection can reach
through the calls of `ssh.h`.
-/

namespace Dossh

open Ssh

/-- The states before the client's `NEWKEYS`. -/
def SshState.early : SshState → Bool
  | .version | .expectKexinit | .expectEcdhInit | .expectClientNewkeys => true
  | _ => false

/-- The states after it. -/
def SshState.late : SshState → Bool
  | .expectServiceRequest | .auth | .session => true
  | _ => false

/-! ## Turns -/

/-- What one turn of the loop of `ssh_input` can do. -/
inductive Turn (env : SshEnv) (s : Ssh) : TryRes → Ssh → Prop where
  | waits : Turn env s .needMore s
  | fails (s₁ : Ssh) (h : s₁ = s ∨ s₁ = { s with c := s.c.opened env }) (why : String) :
      Turn env s .failed (s₁.fail why)
  | wild : Turn env s .wild s
  | banner (hst : s.c.state = .version) (k : Nat) (hk : k < s.c.ib.length) :
      Turn env s .progressed (s.ibConsume (k + 1))
  | version (hst : s.c.state = .version) (k : Nat) (hk : k < s.c.ib.length) (line : List UInt8) :
      Turn env s .progressed
        ({ s with c := { s.c with cliVer := line, state := .expectKexinit } }.ibConsume (k + 1))
  | plain (hst : s.c.state ≠ .version) (henc : s.c.recvEncrypted = false)
      (mem beyond : Nat → UInt8) (n : Nat) (hib : 4 ≤ s.c.ib.length)
      (hlen : 1 ≤ s.c.plainLen env beyond)
      (hneed : env.u (4 + s.c.plainLen env beyond) ≤ s.c.ib.length) :
      Turn env s .progressed
        ((s.dispatch env (s.c.ib.take (env.u (4 + s.c.plainLen env beyond))) mem n).finish
          (env.u (4 + s.c.plainLen env beyond)))
  | opened (hst : s.c.state ≠ .version) (henc : s.c.recvEncrypted = true)
      (hv : s.c.Verified env) (beyond : Nat → UInt8) (padlen : Nat)
      (hpad : padlen = ((s.c.opened env).mem beyond 4).toNat)
      (hle : padlen + 1 ≤ s.c.encLen env) :
      Turn env s .progressed
        (({ s with c := s.c.opened env }.dispatch env (s.c.ib.take (4 + s.c.encLen env + 16))
          (fun k => (s.c.opened env).mem beyond (5 + k)) (s.c.encLen env - 1 - padlen)).finish
            (4 + s.c.encLen env + 16))

theorem versionScan_lt : ∀ {ib : List UInt8} {i k : Nat}, versionScan ib i = .line k →
    i ≤ k ∧ k < i + ib.length
  | [], _, _, h => by cases h
  | b :: ib, i, k, h => by
      rw [versionScan] at h
      split at h
      · cases h
        simp
      · split at h
        · cases h
        · have := versionScan_lt h
          simp only [List.length_cons]
          omega

theorem tryVersion_turn (env : SshEnv) (s : Ssh) (hst : s.c.state = .version) :
    Turn env s (tryVersion s).1 (tryVersion s).2 := by
  unfold tryVersion
  split
  · exact .waits
  · exact .fails s (.inl rfl) _
  next k hscan =>
    have hk := (versionScan_lt hscan).2
    rw [Nat.zero_add] at hk
    dsimp only
    split
    · exact .version hst k hk _
    · exact .banner hst k hk

/-- Every turn is one of those. -/
theorem inputStep_turn (env : SshEnv) (beyond : Nat → UInt8) (s : Ssh) :
    Turn env s (inputStep env beyond s).1 (inputStep env beyond s).2 := by
  unfold inputStep
  split
  next hst => exact tryVersion_turn env s hst
  next hst =>
    unfold tryPacket
    split
    next henc =>
      rcases tryEncrypted_cases env beyond s with heq | ⟨why, heq⟩ | heq | ⟨hv, hrest⟩
      · rw [heq]
        exact .waits
      · rw [heq]
        exact .fails s (.inl rfl) why
      · rw [heq]
        exact .wild
      · rcases hrest with ⟨why, heq⟩ | ⟨padlen, hpad, hle, heq⟩
        · rw [heq]
          exact .fails _ (.inr rfl) why
        · rw [heq]
          exact .opened hst henc hv beyond padlen hpad hle
    next henc =>
      rw [Bool.not_eq_true] at henc
      rcases tryPlain_cases env beyond s with heq | ⟨why, heq⟩ | ⟨h4, hlen, hneed, n, -, heq⟩
      · rw [heq]
        exact .waits
      · rw [heq]
        exact .fails s (.inl rfl) why
      · rw [heq]
        exact .plain hst henc _ beyond n h4 hlen hneed

/-! ## Runs -/

/-- A call of `ssh.h` on one connection, with what it reads from outside.  `shared` is what
the other connections do in between. -/
inductive SshOp where
  | input (data : List UInt8) (beyond : Nat → Nat → UInt8) (fuel : Nat)
  | output (max : Nat)
  | discardOutput
  | getc
  | putc (b : UInt8)
  | flush
  | emit (plain : List UInt8) (outmax : Nat)
  | close
  | shared (g : SshShared)

/-- The state a call of `ssh_input` is seen in: at its return, or after some turns of its
loop. -/
def Outcome.state? : Outcome → Option Ssh
  | .back s => some s
  | .running s => some s
  | .wild => none

/-- The connection after a call. -/
def SshOp.run (env : SshEnv) : SshOp → Ssh → Option Ssh
  | .input data beyond fuel, s => (sshInput env beyond fuel s data).state?
  | .output max, s => some { s with g := (sshOutput s.g max).2 }
  | .discardOutput, s => some { s with g := sshDiscardOutput s.g }
  | .getc, s => some { s with g := (sshChannelGetc s.g).2 }
  | .putc b, s => some (sshChannelPutc s b).2
  | .flush, s => some (sshChannelFlush env s)
  | .emit plain outmax, s => some (sshChannelEmit env s plain outmax).2
  | .close, s => some (sshChannelClose env s)
  | .shared g, s => some { s with g := g }

/-- The connection after a sequence of calls. -/
def sshRun (env : SshEnv) : List SshOp → Ssh → Option Ssh
  | [], s => some s
  | op :: ops, s => (op.run env s).bind (sshRun env ops)

/-- The states of a connection reachable from `ssh_reset`. -/
def SshReach (env : SshEnv) (s : Ssh) : Prop :=
  ∃ g ops, sshRun env ops (sshReset env g) = some s

theorem sshRun_append {env : SshEnv} {op : SshOp} : ∀ {ops : List SshOp} {s s₁ : Ssh},
    sshRun env ops s = some s₁ → sshRun env (ops ++ [op]) s = op.run env s₁
  | [], s, s₁, h => by
      cases h
      show (op.run env s).bind some = op.run env s
      exact Option.bind_fun_some _
  | op' :: ops, s, s₁, h => by
      rw [sshRun, Option.bind_eq_some_iff] at h
      obtain ⟨s₂, hop, hrest⟩ := h
      rw [List.cons_append, sshRun, hop]
      exact sshRun_append hrest

theorem SshReach.call {env : SshEnv} {s s' : Ssh} (h : SshReach env s) {op : SshOp}
    (hrun : op.run env s = some s') : SshReach env s' := by
  obtain ⟨g, ops, hops⟩ := h
  exact ⟨g, ops ++ [op], (sshRun_append hops).trans hrun⟩

/-- What every turn keeps is kept by the loop. -/
theorem inputLoop_preserves {env : SshEnv} {P : Ssh → Prop}
    (hstep : ∀ beyond s, P s → s.c.live = true → P (inputStep env beyond s).2)
    (beyond : Nat → Nat → UInt8) : ∀ (fuel t : Nat) (s s' : Ssh), P s →
      (inputLoop env beyond fuel t s).state? = some s' → P s'
  | 0, t, s, s', hP, h => by
      rw [inputLoop] at h
      split at h
      all_goals
        cases h
        exact hP
  | fuel + 1, t, s, s', hP, h => by
      rw [inputLoop] at h
      split at h
      next hlive =>
        have hnext := hstep (beyond t) s hP hlive
        split at h
        next s₁ heq =>
          rw [heq] at hnext
          exact inputLoop_preserves hstep beyond fuel (t + 1) s₁ s' hnext h
        next s₁ heq =>
          rw [heq] at hnext
          cases h
          exact hnext
        next s₁ heq =>
          rw [heq] at hnext
          cases h
          exact hnext
        next => cases h
      next =>
        cases h
        exact hP

/-- A property of the connection kept by the turns of the loop is kept by the loop. -/
theorem inputLoop_keeps {env : SshEnv} {P : SshConn → Prop}
    (hturn : ∀ s r s', P s.c → s.c.live = true → Turn env s r s' → P s'.c)
    (beyond : Nat → Nat → UInt8) (fuel t : Nat) (s s' : Ssh) (hP : P s.c)
    (h : (inputLoop env beyond fuel t s).state? = some s') : P s'.c := by
  refine inputLoop_preserves (P := fun s => P s.c) ?_ beyond fuel t s s' hP h
  intro beyond s hP hlive
  exact hturn s _ _ hP hlive (inputStep_turn env beyond s)

/-- A connection whose identification line is queued. -/
def SshConn.fresh : SshConn := { SshConn.zero with trace := [.ident (ascii SERVER_ID_CRLF)] }

theorem Ssh.Tame.iS (s : Ssh) (iS : List UInt8) : s.Tame { s with c := { s.c with iS := iS } } :=
  .of_fields rfl rfl rfl rfl rfl

theorem sshReset_tame (env : SshEnv) (g : SshShared) :
    ∃ s : Ssh, s.c = SshConn.fresh ∧ s.Tame (sshReset env g) :=
  ⟨⟨SshConn.fresh, { g with ob := [], cin := [], cout := [] }, []⟩, rfl,
    (Tame.sendUnenc env _ _).before ((Tame.iS _ _).before ((Tame.rngSkip _ _).before
      (.obAppend env _ _)))⟩

/-- A property of the connection that holds of a fresh one, and when more bytes are in the
buffer, after a turn of the loop and after a tame call, holds in every reachable state. -/
theorem SshReach.induct {env : SshEnv} {P : SshConn → Prop}
    (hinit : P SshConn.fresh)
    (hfeed : ∀ c data, P c → P { c with ib := c.ib ++ data })
    (hturn : ∀ s r s', P s.c → s.c.live = true → Turn env s r s' → P s'.c)
    (htame : ∀ s s' : Ssh, P s.c → s.Tame s' → P s'.c) {s : Ssh} (h : SshReach env s) : P s.c := by
  have hrun : ∀ (ops : List SshOp) (s s' : Ssh), P s.c → sshRun env ops s = some s' → P s'.c := by
    intro ops
    induction ops with
    | nil =>
        intro s s' hP h
        cases h
        exact hP
    | cons op ops ih =>
        intro s s' hP h
        rw [sshRun, Option.bind_eq_some_iff] at h
        obtain ⟨s₁, hop, hrest⟩ := h
        refine ih s₁ s' ?_ hrest
        cases op with
        | input data beyond fuel =>
            simp only [SshOp.run, sshInput] at hop
            split at hop
            · cases hop
              exact hP
            · split at hop
              · cases hop
                exact htame s _ hP (.fail s _)
              · split at hop
                · cases hop
                · exact inputLoop_keeps hturn beyond fuel 0 _ s₁ (hfeed s.c data hP) hop
        | putc b =>
            cases hop
            exact htame s _ hP (sshChannelPutc_tame s b)
        | flush =>
            cases hop
            exact htame s _ hP (sshChannelFlush_tame env s)
        | emit plain outmax =>
            cases hop
            exact htame s _ hP (sshChannelEmit_tame env s plain outmax)
        | close =>
            cases hop
            exact htame s _ hP (sshChannelClose_tame env s)
        | _ =>
            cases hop
            exact hP
  obtain ⟨g, ops, h⟩ := h
  obtain ⟨s₀, hfresh, htame₀⟩ := sshReset_tame env g
  have hreset : P (sshReset env g).c := htame s₀ _ (hfresh ▸ hinit) htame₀
  exact hrun ops _ s hreset h

/-! ## A client to run with -/

/-- A library that is quick to compute with. -/
def sampleCrypto : Crypto where
  chacha20 := fun key nonce ctr k => key.headD 0 + nonce.getLastD 0 + UInt8.ofNat (ctr + k)
  poly1305 := fun m k => List.replicate 16 (m.foldl (· + ·) (k.headD 0))
  sha256 := fun m => List.replicate 32 (m.foldl (· + ·) 1)
  x25519PublicKey := fun _ => List.replicate 32 9
  x25519 := fun _ _ => List.replicate 32 7
  ed25519Sign := fun _ _ => List.replicate 64 5
  ed25519Verify := fun _ _ _ => false
  length_poly1305 := by simp
  length_sha256 := by simp
  length_x25519PublicKey := by simp
  length_x25519 := by simp
  length_ed25519Sign := by simp

/-- A DOS box with the password `pw`. -/
def sampleEnv : SshEnv where
  build := .dos
  crypto := sampleCrypto
  rng := fun _ => 3
  hostkeySk := List.replicate 64 1
  hostkeyPk := List.replicate 32 2
  password := ascii "pw"
  authkeys := []

/-- A packet as a client sends it before its `NEWKEYS`. -/
def plainFrame (payload : List UInt8) : List UInt8 :=
  let pad := padLen (5 + payload.length)
  be32 (1 + payload.length + pad) ++ [UInt8.ofNat pad] ++ payload ++ List.replicate pad 0

/-- The packets of the client's key exchange. -/
def sampleKex : List (List UInt8) :=
  [ourKexinit (List.replicate 16 4), [MSG_KEX_ECDH_INIT] ++ putStr (List.replicate 32 8),
    [MSG_NEWKEYS]]

/-- An identification line and plaintext packets. -/
def greeting (payloads : List (List UInt8)) : List UInt8 :=
  ascii "SSH-2.0-client\r\n" ++ payloads.flatMap plainFrame

/-- The chunks of a stream, fed one after the other. -/
def feed (chunks : List (List UInt8)) : List SshOp :=
  chunks.map fun data => .input data (fun _ _ => 0) 8

/-- The connection of a client that sent these chunks. -/
def sampleRun (chunks : List (List UInt8)) : Option Ssh :=
  sshRun sampleEnv (feed chunks) (sshReset sampleEnv SshShared.zero)

/-- The key with which the client of `sampleKex` seals. -/
def sampleKey : List UInt8 := ((sampleRun [greeting sampleKex]).map (·.c.ekC2s)).getD []

/-- A packet as the client sends it after its `NEWKEYS`. -/
def sealedFrame (seq : BitVec 32) (payload : List UInt8) : List UInt8 :=
  sealFrame sampleCrypto sampleKey seq payload (List.replicate (padLen (1 + payload.length)) 0)

/-- A client logs in with the password. -/
def loginChunks : List (List UInt8) :=
  [greeting sampleKex, sealedFrame 3 ([MSG_SERVICE_REQUEST] ++ putNl "ssh-userauth"),
    sealedFrame 4 ([MSG_USERAUTH_REQUEST] ++ putNl "user" ++ putNl "ssh-connection" ++
      putNl "password" ++ [0] ++ putNl "pw")]

theorem login_run :
    ∃ s, SshReach sampleEnv s ∧ s.c.state = .session ∧ s.c.authenticated = true := by
  have hrun : (sampleRun loginChunks).map (fun s => (s.c.state, s.c.authenticated)) =
      some (.session, true) := by
    decide +kernel
  obtain ⟨s, hs, hfacts⟩ := Option.map_eq_some_iff.mp hrun
  rw [Prod.mk.injEq] at hfacts
  exact ⟨s, ⟨_, _, hs⟩, hfacts⟩

end Dossh
