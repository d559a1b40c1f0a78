import Dossh.Ssh.Run

/-!
# The input loop comes to an end

The loop of `ssh_input` runs inside the timer interrupt.  Each turn that makes progress
should take bytes out of `ib`, and then the number of turns is bounded by the length of `ib`.
A plaintext packet whose length field is `-4` in the width of `unsigned` takes none.  An
encrypted packet always takes some, but one whose length wraps is decrypted over whatever
lies behind `ib`, and from there on nothing is known.
-/

namespace Dossh

open Ssh

/-! ## One turn -/

/-- A plaintext packet is in front of the buffer, and adding 4 to its length gives zero. -/
structure SshConn.ZeroNeed (env : SshEnv) (c : SshConn) : Prop where
  state : c.state ≠ .version
  plain : c.recvEncrypted = false
  header : 4 ≤ c.ib.length
  len : env.u (rd32 (fun k => c.ib.getD k 0) 0) = env.build.size - 4

/-- An encrypted packet is in front of the buffer that passes all checks, but only because
its length wraps. -/
structure SshConn.WildLen (env : SshEnv) (beyond : Nat → UInt8) (c : SshConn) : Prop where
  state : c.state ≠ .version
  sealed : c.recvEncrypted = true
  header : 4 ≤ c.ib.length
  len : 8 ≤ c.encLen env ∧ c.encLen env % 8 = 0
  wraps : SSH_IB_SZ < 4 + c.encLen env + 16
  fits : env.u (4 + c.encLen env + 16) ≤ SSH_IB_SZ
  complete : env.u (4 + c.encLen env + 16) ≤ c.ib.length
  tag : c.encTag env beyond = slice (c.mem beyond) (env.u (4 + c.encLen env)) 16

theorem SshEnv.u_lt (env : SshEnv) (x : Nat) : env.u x < env.build.size :=
  Nat.mod_lt _ (by cases env.build <;> decide)

/-- The only length whose sum with 4 vanishes. -/
theorem SshEnv.u_add_four (env : SshEnv) {x : Nat} (h : x < env.build.size) :
    env.u (4 + x) = 0 ↔ x = env.build.size - 4 := by
  have hsz : 65536 ≤ env.build.size := by cases env.build <;> decide
  unfold SshEnv.u
  rcases Nat.lt_or_ge (4 + x) env.build.size with hlt | hge
  · rw [Nat.mod_eq_of_lt hlt]
    omega
  · rw [Nat.mod_eq_sub_mod hge, Nat.mod_eq_of_lt (by omega)]
    omega

/-- The length field lies inside the buffer. -/
theorem plainLen_eq (env : SshEnv) (c : SshConn) (beyond : Nat → UInt8) (h : 4 ≤ c.ib.length) :
    c.plainLen env beyond = env.u (rd32 (fun k => c.ib.getD k 0) 0) := by
  have hbyte : ∀ k < 4, c.mem beyond k = c.ib.getD k 0 := by
    intro k hk
    simp [SshConn.mem, show k < c.ib.length by omega]
  simp [SshConn.plainLen, rd32, hbyte]

theorem dispatch_ib (env : SshEnv) (s : Ssh) (wire : List UInt8) (mem : Nat → UInt8) (n : Nat) :
    (s.dispatch env wire mem n).c.ib = s.c.ib :=
  (dispatch_handled env s wire mem n).input.1

theorem finish_ib_length (s : Ssh) (need : Nat) :
    (s.finish need).c.ib.length = s.c.ib.length - need := by
  simp [Ssh.finish, Ssh.ibConsume]

theorem length_encBody (env : SshEnv) (c : SshConn) (h : 4 + c.encLen env ≤ c.ib.length) :
    (c.encBody env).length = c.encLen env := by
  simp [SshConn.encBody, Crypto.djb]
  omega

/-- Decryption in place keeps the length of the buffer. -/
theorem opened_ib_length {env : SshEnv} {c : SshConn} (h : c.Verified env) :
    (c.opened env).ib.length = c.ib.length := by
  have hcomplete := h.complete
  simp [SshConn.opened, length_encBody env c (by omega)]
  omega

/-- A turn that makes progress takes bytes out of the buffer, or it sees a packet of length
`-4`. -/
theorem Turn.shrinks {env : SshEnv} {s s' : Ssh} (h : Turn env s .progressed s')
    (hzero : ¬ s.c.ZeroNeed env) : s'.c.ib.length < s.c.ib.length := by
  cases h with
  | banner hst k hk =>
      simp [Ssh.ibConsume]
      omega
  | version hst k hk line =>
      simp [Ssh.ibConsume]
      omega
  | plain hst henc mem beyond n hib hlen hneed =>
      rw [finish_ib_length, dispatch_ib]
      have hpos : env.u (4 + s.c.plainLen env beyond) ≠ 0 := by
        intro h0
        rw [plainLen_eq env s.c beyond hib, env.u_add_four (env.u_lt _)] at h0
        exact hzero ⟨hst, henc, hib, h0⟩
      omega
  | opened hst henc hv beyond padlen hpad hle =>
      rw [finish_ib_length, dispatch_ib, opened_ib_length hv]
      have hcomplete := hv.complete
      omega

/-- A packet of length `-4` is handled, and stays where it is. -/
theorem inputStep_zeroNeed {env : SshEnv} {s : Ssh} (beyond : Nat → UInt8)
    (h : s.c.ZeroNeed env) :
    ∃ wire n, inputStep env beyond s = (.progressed,
      (s.dispatch env wire (fun k => s.c.mem beyond (5 + k)) n).finish 0) ∧
      n = env.build.size - 5 - (s.c.mem beyond 4).toNat := by
  have hsz : 65536 ≤ env.build.size := by cases env.build <;> decide
  have hlen : env.u (rd32 (s.c.mem beyond) 0) = env.build.size - 4 := by
    rw [← h.len, ← plainLen_eq env s.c beyond h.header]
    rfl
  have hneed : env.u (4 + (env.build.size - 4)) = 0 := (env.u_add_four (by omega)).mpr rfl
  have hpad := (s.c.mem beyond 4).toNat_lt
  rw [inputStep, if_neg h.state, tryPacket, if_neg (by simp [h.plain]), tryPlain,
    if_neg (by have := h.header; omega)]
  dsimp only
  rw [hlen, Nat.add_comm _ 4, hneed, if_neg (by simp; omega), if_neg (by omega),
    if_neg (by omega)]
  exact ⟨_, _, rfl, by omega⟩

/-- Exactly the packets of length `-4` make a turn that takes nothing. -/
theorem inputStep_shrinks_iff (env : SshEnv) (beyond : Nat → UInt8) (s : Ssh) :
    (∀ s', inputStep env beyond s = (.progressed, s') → s'.c.ib.length < s.c.ib.length) ↔
      ¬ s.c.ZeroNeed env := by
  constructor
  · intro h hzero
    obtain ⟨wire, n, heq, -⟩ := inputStep_zeroNeed beyond hzero
    have hlt := h _ heq
    rw [finish_ib_length, dispatch_ib] at hlt
    omega
  · intro hzero s' heq
    have hturn := inputStep_turn env beyond s
    rw [heq] at hturn
    exact hturn.shrinks hzero

/-- Exactly the packets whose length wraps are decrypted over foreign memory. -/
theorem inputStep_wild_iff (env : SshEnv) (beyond : Nat → UInt8) (s : Ssh) :
    (inputStep env beyond s).1 = .wild ↔ s.c.WildLen env beyond := by
  unfold inputStep
  split
  next hst =>
    have hno : (tryVersion s).1 ≠ .wild := by
      unfold tryVersion
      split <;> simp
    exact iff_of_false hno fun h => h.state hst
  next hst =>
    unfold tryPacket
    split
    next henc =>
      unfold tryEncrypted
      dsimp only
      split
      next h4 => exact iff_of_false (by simp) fun h => absurd h.header (by omega)
      next h4 =>
        split
        next hbad =>
          refine iff_of_false (by simp) fun h => ?_
          have hlen := h.len
          have hfits := h.fits
          omega
        next hok =>
          split
          next hneed => exact iff_of_false (by simp) fun h => absurd h.complete (by omega)
          next hneed =>
            split
            next htag => exact iff_of_false (by simp) fun h => htag h.tag
            next htag =>
              rw [not_not] at htag
              split
              next hwraps =>
                exact iff_of_true rfl ⟨hst, henc, by omega, by omega, hwraps, by omega,
                  by omega, htag⟩
              next hwraps =>
                refine iff_of_false ?_ fun h => hwraps h.wraps
                split <;> simp
    next henc =>
      have hno : (tryPlain env beyond s).1 ≠ .wild := by
        rcases tryPlain_cases env beyond s with heq | ⟨why, heq⟩ | ⟨-, -, -, n, -, heq⟩
        all_goals
          rw [heq]
          simp
      exact iff_of_false hno fun h => henc h.sealed

/-! ## The loop -/

/-- The state in which the loop begins its turn `t + k`, if it begins turn `t` in state
`s` and does not end before. -/
def turnState (env : SshEnv) (beyond : Nat → Nat → UInt8) : Nat → Nat → Ssh → Option Ssh
  | 0, _, s => if s.c.live then some s else none
  | k + 1, t, s =>
      if s.c.live then
        match inputStep env (beyond t) s with
        | (.progressed, s) => turnState env beyond k (t + 1) s
        | _ => none
      else none

theorem turnState_succ {env : SshEnv} {beyond : Nat → Nat → UInt8} {t : Nat} {s s₁ : Ssh}
    (hlive : s.c.live = true) (hstep : inputStep env (beyond t) s = (.progressed, s₁)) (k : Nat) :
    turnState env beyond (k + 1) t s = turnState env beyond k (t + 1) s₁ := by
  rw [turnState, if_pos hlive, hstep]

/-- Each turn takes bytes, so there are at most as many as there are bytes. -/
theorem inputLoop_back {env : SshEnv} {beyond : Nat → Nat → UInt8} :
    ∀ (fuel t : Nat) (s : Ssh), s.c.ib.length < fuel →
      (∀ k s₁, turnState env beyond k t s = some s₁ →
        ¬ s₁.c.ZeroNeed env ∧ ¬ s₁.c.WildLen env (beyond (t + k))) →
      ∃ s', inputLoop env beyond fuel t s = .back s'
  | 0, _, _, hlt, _ => absurd hlt (Nat.not_lt_zero _)
  | fuel + 1, t, s, hlt, hok => by
      rw [inputLoop]
      split
      next hlive =>
        have hs := hok 0 s (by rw [turnState, if_pos hlive])
        rw [Nat.add_zero] at hs
        split
        next s₁ heq =>
          have hshrinks := (inputStep_shrinks_iff env (beyond t) s).mpr hs.1 s₁ heq
          refine inputLoop_back fuel (t + 1) s₁ (by omega) fun k s₂ hk => ?_
          rw [Nat.add_assoc, Nat.add_comm 1 k]
          exact hok (k + 1) s₂ (by rw [turnState_succ hlive heq, hk])
        next => exact ⟨_, rfl⟩
        next => exact ⟨_, rfl⟩
        next heq => exact absurd ((inputStep_wild_iff _ _ _).mp (by rw [heq])) hs.2
      next => exact ⟨_, rfl⟩

/-- The loop does not return from a wild decryption. -/
theorem inputLoop_wild {env : SshEnv} {beyond : Nat → Nat → UInt8} :
    ∀ (k t : Nat) (s s₁ : Ssh), turnState env beyond k t s = some s₁ →
      s₁.c.WildLen env (beyond (t + k)) → ∀ fuel s', inputLoop env beyond fuel t s ≠ .back s'
  | k, t, s, s₁, hk, hwild, 0, s' => by
      have hlive : s.c.live = true := by
        cases k
        all_goals
          rw [turnState] at hk
          split at hk
          next hlive => exact hlive
          next => cases hk
      rw [inputLoop, if_pos hlive]
      intro hback
      cases hback
  | 0, t, s, s₁, hk, hwild, fuel + 1, s' => by
      rw [turnState] at hk
      split at hk
      next hlive =>
        cases hk
        have hstep := (inputStep_wild_iff env (beyond t) s).mpr hwild
        rw [inputLoop, if_pos hlive]
        cases heq : inputStep env (beyond t) s with
        | mk r s₂ =>
            rw [heq] at hstep
            cases hstep
            intro hback
            cases hback
      next => cases hk
  | k + 1, t, s, s₁, hk, hwild, fuel + 1, s' => by
      rw [turnState] at hk
      split at hk
      next hlive =>
        split at hk
        next s₂ heq =>
          rw [inputLoop, if_pos hlive, heq]
          refine inputLoop_wild k (t + 1) s₂ s₁ hk ?_ fuel s'
          rwa [Nat.add_assoc, Nat.add_comm 1 k]
        next => cases hk
      next => cases hk

/-! ## The call -/

/-- The chunk passes the check of `ssh_input` only because the sum of the lengths wraps. -/
def ChunkWraps (env : SshEnv) (s : Ssh) (data : List UInt8) : Prop :=
  s.c.state ≠ .error ∧ env.u (s.c.ib.length + data.length) ≤ SSH_IB_SZ ∧
    SSH_IB_SZ < s.c.ib.length + data.length

/-- The state in which a call of `ssh_input` begins turn `k` of its loop. -/
def inputTurn (env : SshEnv) (beyond : Nat → Nat → UInt8) (s : Ssh) (data : List UInt8)
    (k : Nat) : Option Ssh :=
  if s.c.state = .error ∨ SSH_IB_SZ < s.c.ib.length + data.length then none
  else turnState env beyond k 0 { s with c := { s.c with ib := s.c.ib ++ data } }

/-- A chunk that fits is appended, and the loop starts. -/
theorem sshInput_enters {env : SshEnv} {beyond : Nat → Nat → UInt8} {s : Ssh}
    {data : List UInt8} {fuel : Nat} (hst : s.c.state ≠ .error)
    (hfits : s.c.ib.length + data.length ≤ SSH_IB_SZ) :
    sshInput env beyond fuel s data =
      inputLoop env beyond fuel 0 { s with c := { s.c with ib := s.c.ib ++ data } } := by
  have hsz : SSH_IB_SZ = 2048 := rfl
  have hu : env.u (s.c.ib.length + data.length) = s.c.ib.length + data.length :=
    env.u_small (by omega)
  rw [sshInput, if_neg hst, hu, if_neg (by omega), if_neg (by omega)]

theorem sshInput_not_wraps {env : SshEnv} {beyond : Nat → Nat → UInt8} {s s' : Ssh}
    {data : List UInt8} {fuel : Nat} (h : sshInput env beyond fuel s data = .back s') :
    ¬ ChunkWraps env s data := by
  rintro ⟨hst, hu, hlong⟩
  rw [sshInput, if_neg hst, if_neg (by omega), if_pos hlong] at h
  cases h

theorem sshInput_back {env : SshEnv} {beyond : Nat → Nat → UInt8} {s : Ssh} {data : List UInt8}
    (hchunk : ¬ ChunkWraps env s data)
    (hok : ∀ k s₁, inputTurn env beyond s data k = some s₁ →
      ¬ s₁.c.ZeroNeed env ∧ ¬ s₁.c.WildLen env (beyond k)) :
    ∃ fuel s', sshInput env beyond fuel s data = .back s' := by
  rcases Classical.em (s.c.state = .error) with hst | hst
  · exact ⟨0, s, by rw [sshInput, if_pos hst]⟩
  rcases Nat.lt_or_ge SSH_IB_SZ (s.c.ib.length + data.length) with hlong | hfits
  · have hu : SSH_IB_SZ < env.u (s.c.ib.length + data.length) := by
      by_contra hle
      exact hchunk ⟨hst, by omega, hlong⟩
    exact ⟨0, _, by rw [sshInput, if_neg hst, if_pos hu]⟩
  · refine ⟨(s.c.ib ++ data).length + 1, ?_⟩
    rw [sshInput_enters hst hfits]
    refine inputLoop_back _ 0 _ (Nat.lt_succ_self _) ?_
    intro k s₁ hk
    rw [Nat.zero_add]
    exact hok k s₁ (by rw [inputTurn, if_neg (not_or.mpr ⟨hst, Nat.not_lt.mpr hfits⟩), hk])

/-- `ssh_input` returns after turns that each take bytes if and only if the chunk does not
wrap and no turn finds a packet of length `-4` or an accepted one whose length wraps. -/
theorem ssh_input_terminates (env : SshEnv) (beyond : Nat → Nat → UInt8) (s : Ssh)
    (data : List UInt8) :
    ((∃ fuel s', sshInput env beyond fuel s data = .back s') ∧
      ∀ k s₁ s₂, inputTurn env beyond s data k = some s₁ →
        inputStep env (beyond k) s₁ = (.progressed, s₂) → s₂.c.ib.length < s₁.c.ib.length) ↔
    (¬ ChunkWraps env s data ∧ ∀ k s₁, inputTurn env beyond s data k = some s₁ →
      ¬ s₁.c.ZeroNeed env ∧ ¬ s₁.c.WildLen env (beyond k)) := by
  have hturns : (∀ k s₁ s₂, inputTurn env beyond s data k = some s₁ →
      inputStep env (beyond k) s₁ = (.progressed, s₂) → s₂.c.ib.length < s₁.c.ib.length) ↔
      ∀ k s₁, inputTurn env beyond s data k = some s₁ → ¬ s₁.c.ZeroNeed env := by
    constructor
    · intro h k s₁ hk
      exact (inputStep_shrinks_iff env (beyond k) s₁).mp fun s₂ => h k s₁ s₂ hk
    · intro h k s₁ s₂ hk
      exact (inputStep_shrinks_iff env (beyond k) s₁).mpr (h k s₁ hk) s₂
  rw [hturns]
  constructor
  · rintro ⟨⟨fuel, s', hback⟩, hzero⟩
    refine ⟨sshInput_not_wraps hback, fun k s₁ hk => ⟨hzero k s₁ hk, fun hwild => ?_⟩⟩
    unfold inputTurn at hk
    split at hk
    next => cases hk
    next henters =>
      rw [not_or, Nat.not_lt] at henters
      rw [sshInput_enters henters.1 henters.2] at hback
      exact inputLoop_wild k 0 _ s₁ hk (by rwa [Nat.zero_add]) fuel s' hback
  · rintro ⟨hchunk, hok⟩
    refine ⟨sshInput_back hchunk hok, fun k s₁ hk => (hok k s₁ hk).1⟩

/-! ## The hang -/

/-- A length field of `-4`, no padding, and the number of `SSH_MSG_IGNORE`. -/
def hangBytes : List UInt8 := [0xFF, 0xFF, 0xFF, 0xFC, 0, MSG_IGNORE]

/-- A connection that has identified itself and has `hangBytes` in front of it. -/
structure SshConn.Hangs (c : SshConn) : Prop where
  state : c.state = .expectKexinit
  plain : c.recvEncrypted = false
  ib : c.ib = hangBytes

theorem handlePacket_ignore (env : SshEnv) (s : Ssh) (pl : Payload) (h : pl.msg = MSG_IGNORE) :
    (handlePacket env s pl).c = s.c := by
  unfold handlePacket
  rw [h]
  dsimp only
  rw [if_neg (by decide), if_pos (.inl rfl)]
  split <;> rfl

theorem SshConn.Hangs.step (env : SshEnv) {s : Ssh} (beyond : Nat → UInt8) (h : s.c.Hangs) :
    ∃ s', inputStep env beyond s = (.progressed, s') ∧ s'.c.Hangs := by
  have hzero : s.c.ZeroNeed env := by
    refine ⟨by rw [h.state]; decide, h.plain, by rw [h.ib]; decide, ?_⟩
    rw [h.ib]
    unfold SshEnv.u
    cases env.build <;> rfl
  obtain ⟨wire, n, heq, hn⟩ := inputStep_zeroNeed beyond hzero
  have hsz : 65536 ≤ env.build.size := by cases env.build <;> decide
  have hpad := (s.c.mem beyond 4).toNat_lt
  have hmsg : Payload.msg ⟨fun k => s.c.mem beyond (5 + k), 0, n⟩ = MSG_IGNORE := by
    rw [Payload.msg, if_pos (by simp only; omega)]
    simp [Payload.get, SshConn.mem, h.ib, hangBytes]
  refine ⟨_, heq, ?_⟩
  generalize hs₁ : s.dispatch env wire (fun k => s.c.mem beyond (5 + k)) n = s₁
  have hc : s₁.c = (s.note (s.packetEvent wire (slice (fun k => s.c.mem beyond (5 + k)) 0 n))).c := by
    rw [← hs₁]
    exact handlePacket_ignore env _ _ hmsg
  constructor
  · exact (congrArg SshConn.state hc).trans h.state
  · exact (congrArg SshConn.recvEncrypted hc).trans h.plain
  · exact (congrArg SshConn.ib hc).trans h.ib

/-- The loop never gets past `hangBytes`. -/
theorem SshConn.Hangs.running {env : SshEnv} (beyond : Nat → Nat → UInt8) :
    ∀ (fuel t : Nat) {s : Ssh}, s.c.Hangs → ∃ s', inputLoop env beyond fuel t s = .running s'
  | 0, t, s, h => ⟨s, by rw [inputLoop, if_pos (by simp [SshConn.live, h.state])]⟩
  | fuel + 1, t, s, h => by
      obtain ⟨s₁, heq, h₁⟩ := h.step env (beyond t)
      rw [inputLoop, if_pos (by simp [SshConn.live, h.state]), heq]
      exact SshConn.Hangs.running beyond fuel (t + 1) h₁

/-- Feeding `hangBytes` to a connection that waits for `KEXINIT` with an empty buffer. -/
theorem sshInput_hangs {env : SshEnv} {s : Ssh} (hst : s.c.state = .expectKexinit)
    (hplain : s.c.recvEncrypted = false) (hib : s.c.ib = []) (beyond : Nat → Nat → UInt8)
    (fuel : Nat) : ∃ s', sshInput env beyond fuel s hangBytes = .running s' := by
  rw [sshInput_enters (by rw [hst]; decide) (by rw [hib]; decide)]
  exact SshConn.Hangs.running beyond fuel 0 ⟨hst, hplain, by rw [hib]; rfl⟩

/-- One identification line and six bytes hang the machine, whatever the width. -/
theorem ssh_input_never_returns :
    (∃ s, SshReach sampleEnv s ∧
      ∀ beyond fuel, ∃ s', sshInput sampleEnv beyond fuel s hangBytes = .running s') ∧
    ∃ s, SshReach { sampleEnv with build := .native } s ∧
      ∀ beyond fuel, ∃ s',
        sshInput { sampleEnv with build := .native } beyond fuel s hangBytes = .running s' := by
  have hrun : ∀ build, ((sshRun { sampleEnv with build := build } (feed [greeting []])
      (sshReset { sampleEnv with build := build } SshShared.zero)).map
        fun s => (s.c.state, s.c.recvEncrypted, s.c.ib)) = some (.expectKexinit, false, []) := by
    intro build
    cases build <;> decide +kernel
  have hhang : ∀ build, ∃ s, SshReach { sampleEnv with build := build } s ∧
      ∀ beyond fuel, ∃ s',
        sshInput { sampleEnv with build := build } beyond fuel s hangBytes = .running s' := by
    intro build
    obtain ⟨s, hs, hc⟩ := Option.map_eq_some_iff.mp (hrun build)
    simp only [Prod.mk.injEq] at hc
    exact ⟨s, ⟨_, _, hs⟩, sshInput_hangs hc.1 hc.2.1 hc.2.2⟩
  exact ⟨hhang .dos, hhang .native⟩

end Dossh
