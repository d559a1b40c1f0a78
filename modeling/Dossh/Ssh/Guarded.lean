import Dossh.Ssh.Decode
import Dossh.Ssh.Termination

/-!
# Runs that meet a condition

Some results hold only in runs in which no packet and no call comes at a bad moment.
`RunMeets` is such a run: every packet that a turn of `ssh_input` hands to `handle_packet`
meets `Q` with the connection it finds, and every call meets `O`.  An invariant is then shown
for the decoder, for one packet and for one call.
-/

namespace Dossh

open Ssh

/-- The payload that a turn hands to `handle_packet`. -/
def handed (env : SshEnv) (beyond : Nat → UInt8) (s : Ssh) : Option Payload :=
  if s.c.state = .version then none
  else
    match decode env beyond s.c with
    | .packet _ _ pl _ => some pl
    | _ => none

/-- The packets that the loop of `ssh_input` hands over meet `Q`. -/
def TurnsMeet (env : SshEnv) (Q : SshConn → Payload → Prop) (beyond : Nat → Nat → UInt8) :
    Nat → Nat → Ssh → Prop
  | 0, _, _ => True
  | fuel + 1, t, s =>
      s.c.live = true →
        (∀ pl ∈ handed env (beyond t) s, Q s.c pl) ∧
        match inputStep env (beyond t) s with
        | (.progressed, s) => TurnsMeet env Q beyond fuel (t + 1) s
        | _ => True

/-- The packets of a call meet `Q`. -/
def SshOp.Meets (env : SshEnv) (Q : SshConn → Payload → Prop) : SshOp → Ssh → Prop
  | .input data beyond fuel, s =>
      s.c.ib.length + data.length ≤ SSH_IB_SZ →
        TurnsMeet env Q beyond fuel 0 { s with c := { s.c with ib := s.c.ib ++ data } }
  | _, _ => True

/-- Every packet of the run meets `Q` and every call meets `O`. -/
def RunMeets (env : SshEnv) (Q : SshConn → Payload → Prop) (O : SshOp → Ssh → Prop) :
    List SshOp → Ssh → Prop
  | [], _ => True
  | op :: ops, s =>
      O op s ∧ op.Meets env Q s ∧ ∀ s' ∈ op.run env s, RunMeets env Q O ops s'

/-- What the decoder does on its own: it moves in the buffer, takes the line of the client, and
may fail. -/
structure Ssh.Decodes (s s' : Ssh) : Prop where
  conn : s'.c = { s.c with
    ib := s'.c.ib, cliVer := s'.c.cliVer, state := s'.c.state, err := s'.c.err
    errMsg := s'.c.errMsg, recvSeq := s'.c.recvSeq }
  shared : s'.g = s.g
  moves : s'.c.state = s.c.state ∨ s'.c.state = .error ∨
    s.c.state = .version ∧ s'.c.state = .expectKexinit

/-- A state at the call of `handle_packet`. -/
def Ssh.handing (s : Ssh) (ib wire : List UInt8) (pl : Payload) : Ssh :=
  let s : Ssh := { s with c := { s.c with ib := ib } }
  { s.note (s.packetEvent wire pl.bytes) with reads := [] }

/-- A call of `ssh_input`. -/
def SshOp.isInput : SshOp → Bool
  | .input _ _ _ => true
  | _ => false

variable {env : SshEnv} {Q : SshConn → Payload → Prop} {O : SshOp → Ssh → Prop} {s s' s'' : Ssh}

theorem Ssh.Decodes.trans (h : s.Decodes s') (h' : s'.Decodes s'') : s.Decodes s'' := by
  refine ⟨?_, h'.shared.trans h.shared, ?_⟩
  · have h₁ := h.conn
    have h₂ := h'.conn
    rw [h₁] at h₂
    exact h₂
  · rcases h'.moves with hst' | hst' | ⟨hfrom, hto⟩
    · rw [hst']
      exact h.moves
    · exact .inr (.inl hst')
    · rcases h.moves with hst | hst | ⟨-, hst⟩
      · exact .inr (.inr ⟨hst.symm.trans hfrom, hto⟩)
      · exact absurd (hst.symm.trans hfrom) nofun
      · exact absurd (hst.symm.trans hfrom) nofun

theorem Ssh.Decodes.refl (s : Ssh) : s.Decodes s := ⟨rfl, rfl, .inl rfl⟩

theorem Ssh.Decodes.fail (s : Ssh) (why : String) : s.Decodes (s.fail why) := by
  unfold Ssh.fail
  split
  · exact ⟨rfl, rfl, .inr (.inl rfl)⟩
  · exact .refl s

theorem Ssh.Decodes.finish (s : Ssh) (need : Nat) : s.Decodes (s.finish need) :=
  ⟨rfl, rfl, .inl rfl⟩

theorem Ssh.Decodes.fill (s : Ssh) (data : List UInt8) :
    s.Decodes { s with c := { s.c with ib := s.c.ib ++ data } } := ⟨rfl, rfl, .inl rfl⟩

theorem tryVersion_decodes (hst : s.c.state = .version) : s.Decodes (tryVersion s).2 := by
  unfold tryVersion
  split
  · exact .refl s
  · exact .fail s _
  · dsimp only
    split
    · exact ⟨rfl, rfl, .inr (.inr ⟨hst, rfl⟩)⟩
    · exact ⟨rfl, rfl, .inl rfl⟩

/-- A turn is the work of the decoder, around the handling of at most one packet. -/
theorem inputStep_cases (env : SshEnv) (beyond : Nat → UInt8) (s : Ssh) :
    s.Decodes (inputStep env beyond s).2 ∨
    ∃ ib wire pl need, pl ∈ handed env beyond s ∧
      (inputStep env beyond s).2 = (handlePacket env (s.handing ib wire pl) pl).finish need := by
  unfold inputStep
  split
  next hst => exact .inl (tryVersion_decodes hst)
  next hst =>
    rw [← tryPacketWith_handlePacket]
    unfold tryPacketWith
    have hconn : ∀ c', (decode env beyond s.c).conn? = some c' → c' = { s.c with ib := c'.ib } :=
      fun _ => decode_conn
    cases hdec : decode env beyond s.c with
    | needMore => exact .inl (.refl s)
    | wild => exact .inl (.refl s)
    | failed c why =>
        rw [hdec] at hconn
        have hc : s.Decodes { s with c := c } := by
          refine ⟨?_, rfl, .inl ?_⟩
          all_goals
            dsimp only
            rw [hconn c rfl]
        exact .inl (hc.trans (.fail _ why))
    | packet c wire pl need =>
        rw [hdec] at hconn
        refine .inr ⟨c.ib, wire, pl, need, ?_, ?_⟩
        · rw [handed, if_neg hst, hdec]
          rfl
        · have hc := hconn c rfl
          rw [Decoded.run, Ssh.handing, ← hc]

/-- Every other call is tame. -/
theorem SshOp.run_tame {op : SshOp} (hop : op.isInput = false) (h : op.run env s = some s') :
    s.Tame s' := by
  cases op with
  | input data beyond fuel => cases hop
  | putc b =>
      cases h
      exact sshChannelPutc_tame s b
  | flush =>
      cases h
      exact sshChannelFlush_tame env s
  | emit plain outmax =>
      cases h
      exact sshChannelEmit_tame env s plain outmax
  | close =>
      cases h
      exact sshChannelClose_tame env s
  | _ =>
      cases h
      exact .of_conn rfl

/-! ## Invariants of such runs -/

section

variable {P : Ssh → Prop} {beyond : Nat → Nat → UInt8}

theorem inputLoop_meets
    (hstep : ∀ beyond s, P s → (∀ pl ∈ handed env beyond s, Q s.c pl) →
      P (inputStep env beyond s).2) : ∀ (fuel t : Nat) {s s' : Ssh}, P s →
      TurnsMeet env Q beyond fuel t s → (inputLoop env beyond fuel t s).state? = some s' → P s'
  | 0, t, s, s', hP, _, h => by
      rw [inputLoop] at h
      split at h
      all_goals
        cases h
        exact hP
  | fuel + 1, t, s, s', hP, hT, h => by
      rw [inputLoop] at h
      split at h
      next hlive =>
        obtain ⟨hhere, hnext⟩ := hT hlive
        have hturn := hstep (beyond t) s hP hhere
        split at h
        next s₁ heq =>
          rw [heq] at hturn hnext
          exact inputLoop_meets hstep fuel (t + 1) hturn hnext h
        next s₁ heq =>
          rw [heq] at hturn
          cases h
          exact hturn
        next s₁ heq =>
          rw [heq] at hturn
          cases h
          exact hturn
        next => cases h
      next =>
        cases h
        exact hP

/-- What follows from the invariant at a packet holds at every packet of the loop. -/
theorem TurnsMeet.always {Q' : SshConn → Payload → Prop}
    (hstep : ∀ beyond s, P s → (∀ pl ∈ handed env beyond s, Q s.c pl) →
      P (inputStep env beyond s).2)
    (hQ : ∀ s pl, P s → Q s.c pl → Q' s.c pl) : ∀ (fuel t : Nat) {s : Ssh}, P s →
      TurnsMeet env Q beyond fuel t s → TurnsMeet env Q' beyond fuel t s
  | 0, _, _, _, _ => trivial
  | fuel + 1, t, s, hP, hT => by
      intro hlive
      obtain ⟨hhere, hnext⟩ := hT hlive
      have hturn := hstep (beyond t) s hP hhere
      refine ⟨fun pl hpl => hQ s pl hP (hhere pl hpl), ?_⟩
      generalize inputStep env (beyond t) s = r at hturn hnext
      obtain ⟨res, s₁⟩ := r
      cases res with
      | progressed => exact TurnsMeet.always hstep hQ fuel (t + 1) hturn hnext
      | _ => trivial

/-- The loop hands over packets of a live connection only. -/
theorem TurnsMeet.live (beyond : Nat → Nat → UInt8) : ∀ (fuel t : Nat) (s : Ssh),
    TurnsMeet env (fun c _ => c.live = true) beyond fuel t s
  | 0, _, _ => trivial
  | fuel + 1, t, s => by
      intro hlive
      refine ⟨fun _ _ => hlive, ?_⟩
      split
      · exact TurnsMeet.live beyond fuel (t + 1) _
      · trivial

theorem RunMeets.live : ∀ (ops : List SshOp) (s : Ssh),
    RunMeets env (fun c _ => c.live = true) (fun _ _ => True) ops s
  | [], _ => trivial
  | op :: ops, s => by
      refine ⟨trivial, ?_, fun s' _ => RunMeets.live ops s'⟩
      cases op with
      | input data beyond fuel => exact fun _ => TurnsMeet.live beyond fuel 0 _
      | _ => trivial

variable (hdecodes : ∀ s s', P s → s.Decodes s' → P s')
  (hpacket : ∀ s ib wire pl, P s → Q s.c pl → P (handlePacket env (s.handing ib wire pl) pl))
  (hcall : ∀ op s s', P s → op.isInput = false → O op s → op.run env s = some s' → P s')

include hdecodes hpacket

theorem inputStep_keeps (beyond : Nat → UInt8) (s : Ssh) (hP : P s)
    (hQ : ∀ pl ∈ handed env beyond s, Q s.c pl) : P (inputStep env beyond s).2 := by
  rcases inputStep_cases env beyond s with h | ⟨ib, wire, pl, need, hhanded, heq⟩
  · exact hdecodes s _ hP h
  · rw [heq]
    exact hdecodes _ _ (hpacket s ib wire pl hP (hQ pl hhanded)) (.finish _ need)

include hcall

theorem SshOp.Meets.keeps {op : SshOp} (hP : P s) (hO : O op s) (hmeets : op.Meets env Q s)
    (hop : op.run env s = some s') : P s' := by
  cases op with
  | input data beyond fuel =>
      simp only [SshOp.run, sshInput] at hop
      split at hop
      · cases hop
        exact hP
      · split at hop
        · cases hop
          exact hdecodes s _ hP (.fail s _)
        · split at hop
          · cases hop
          next hfits =>
            have hfilled : P { s with c := { s.c with ib := s.c.ib ++ data } } :=
              hdecodes s _ hP (.fill s data)
            exact inputLoop_meets (inputStep_keeps hdecodes hpacket) fuel 0 hfilled
              (hmeets (Nat.not_lt.mp hfits)) hop
  | _ => exact hcall _ s s' hP rfl hO hop

/-- An invariant of the decoder, of packets that meet `Q` and of calls that meet `O` holds along
every run that meets them. -/
theorem RunMeets.keeps : ∀ (ops : List SshOp) {s s' : Ssh}, P s → RunMeets env Q O ops s →
    sshRun env ops s = some s' → P s'
  | [], s, s', hP, _, hrun => by
      cases hrun
      exact hP
  | op :: ops, s, s', hP, hmeets, hrun => by
      rw [sshRun, Option.bind_eq_some_iff] at hrun
      obtain ⟨s₁, hop, hrest⟩ := hrun
      have hnext : P s₁ := SshOp.Meets.keeps hdecodes hpacket hcall hP hmeets.1 hmeets.2.1 hop
      exact RunMeets.keeps ops hnext (hmeets.2.2 s₁ hop) hrest

/-- What follows from the invariant at a packet holds at every packet of the run. -/
theorem RunMeets.always {Q' : SshConn → Payload → Prop}
    (hQ : ∀ s pl, P s → Q s.c pl → Q' s.c pl) : ∀ (ops : List SshOp) {s : Ssh}, P s →
      RunMeets env Q O ops s → RunMeets env Q' O ops s
  | [], _, _, _ => trivial
  | op :: ops, s, hP, hmeets => by
      refine ⟨hmeets.1, ?_, fun s₁ hop => ?_⟩
      · have hturns := hmeets.2.1
        cases op with
        | input data beyond fuel =>
            intro hfits
            have hfilled : P { s with c := { s.c with ib := s.c.ib ++ data } } :=
              hdecodes s _ hP (.fill s data)
            exact TurnsMeet.always (inputStep_keeps hdecodes hpacket) hQ fuel 0 hfilled
              (hturns hfits)
        | _ => trivial
      · have hnext : P s₁ := SshOp.Meets.keeps hdecodes hpacket hcall hP hmeets.1 hmeets.2.1 hop
        exact RunMeets.always hQ ops hnext (hmeets.2.2 s₁ hop)

end

/-! ## Concrete runs -/

section

variable [∀ c pl, Decidable (Q c pl)] [∀ op s, Decidable (O op s)]

instance decidableTurnsMeet (beyond : Nat → Nat → UInt8) : ∀ (fuel t : Nat) (s : Ssh),
    Decidable (TurnsMeet env Q beyond fuel t s)
  | 0, _, _ => isTrue trivial
  | fuel + 1, t, s =>
      have : Decidable (match inputStep env (beyond t) s with
          | (.progressed, s) => TurnsMeet env Q beyond fuel (t + 1) s
          | _ => True) :=
        match inputStep env (beyond t) s with
        | (.progressed, s) => decidableTurnsMeet beyond fuel (t + 1) s
        | (.needMore, _) => isTrue trivial
        | (.failed, _) => isTrue trivial
        | (.wild, _) => isTrue trivial
      inferInstanceAs (Decidable (s.c.live = true → _ ∧ _))

instance decidableMeets : ∀ (op : SshOp) (s : Ssh), Decidable (op.Meets env Q s)
  | .input data _ _, s => inferInstanceAs (Decidable (s.c.ib.length + data.length ≤ SSH_IB_SZ → _))
  | .output _, _ | .discardOutput, _ | .getc, _ | .putc _, _ | .flush, _ | .emit _ _, _
  | .close, _ | .shared _, _ => isTrue trivial

instance decidableRunMeets : ∀ (ops : List SshOp) (s : Ssh), Decidable (RunMeets env Q O ops s)
  | [], _ => isTrue trivial
  | op :: ops, s =>
      have : ∀ s, Decidable (RunMeets env Q O ops s) := decidableRunMeets ops
      inferInstanceAs (Decidable (O op s ∧ op.Meets env Q s ∧ ∀ s' ∈ op.run env s, _))

end

end Dossh
