import Mathlib.Logic.Function.Iterate
import Dossh.Ssh.Decode
import Dossh.Ssh.RoundTrip

/-!
# Requests that are only answered

A global request is answered in any state and changes nothing else.  A client that sends many
and takes no answer fills `g_ob`, 16 bytes at a time.
-/

namespace Dossh

open Ssh

/-- A global request that wants a reply, as short as possible. -/
def pingFrame : List UInt8 := [0, 0, 0, 7, 0, MSG_GLOBAL_REQUEST, 0, 0, 0, 0, 1]

/-- The shared part with an answer queued. -/
def answer (env : SshEnv) (g : SshShared) : SshShared :=
  { g with
    ob := g.ob ++ unencFrame [MSG_REQUEST_FAILURE] (env.rngBytes g.rngPos 10)
    rngPos := g.rngPos + 10 }

/-- `n` more requests were read and answered. -/
structure Ssh.Answered (env : SshEnv) (n : Nat) (s s' : Ssh) (rest : List UInt8) : Prop where
  conn : s'.c = { s.c with
    ib := rest, recvSeq := s'.c.recvSeq, sendSeq := s'.c.sendSeq, trace := s'.c.trace }
  shared : s'.g = (answer env)^[n] s.g

variable {env : SshEnv} {beyond : Nat → UInt8} {s : Ssh} {rest : List UInt8}

theorem sendUnenc_answer (hroom : s.g.ob.length + 16 ≤ SSH_OB_SZ) :
    (s.sendUnenc env [MSG_REQUEST_FAILURE]).g = answer env s.g ∧
      (s.sendUnenc env [MSG_REQUEST_FAILURE]).c = { s.c with
        sendSeq := (s.sendUnenc env [MSG_REQUEST_FAILURE]).c.sendSeq
        trace := (s.sendUnenc env [MSG_REQUEST_FAILURE]).c.trace } := by
  have hlen : padLen (4 + 1 + [MSG_REQUEST_FAILURE].length) = 10 := by decide
  have hpad : (env.rngBytes s.g.rngPos 10).length = 10 := length_slice _ _ _
  have hfits : s.g.ob.length + 5 + [MSG_REQUEST_FAILURE].length +
      padLen (4 + 1 + [MSG_REQUEST_FAILURE].length) ≤ SSH_OB_SZ := by
    rw [hlen]
    exact hroom
  rw [sendUnenc_fits env s [MSG_REQUEST_FAILURE] rfl hfits, hlen]
  refine ⟨?_, rfl⟩
  dsimp only [Ssh.framed]
  rw [hpad]
  rfl

theorem handlePacket_ping (env : SshEnv) (pl : Payload) (hlen : pl.len = 6)
    (hbytes : pl.bytes = [MSG_GLOBAL_REQUEST, 0, 0, 0, 0, 1])
    (hplain : s.c.sendEncrypted = false) (hroom : s.g.ob.length + 16 ≤ SSH_OB_SZ) :
    (handlePacket env s pl).g = answer env s.g ∧ (handlePacket env s pl).c = { s.c with
      sendSeq := (handlePacket env s pl).c.sendSeq, trace := (handlePacket env s pl).c.trace } := by
  have hget : ∀ k < 6, pl.get k = [MSG_GLOBAL_REQUEST, 0, 0, 0, 0, 1].getD k 0 :=
    fun k hk => Payload.get_of_bytes hbytes hk
  have hmsg : pl.msg = MSG_GLOBAL_REQUEST := by
    rw [Payload.msg, if_pos (by omega), hget 0 (by omega)]
    rfl
  have hname : pl.u32 1 = 0 := Payload.u32_of_bytes hbytes (by decide)
  have hreply : pl.get 5 ≠ 0 := by
    rw [hget 5 (by omega)]
    decide
  have hu : ∀ x < 65536, env.u x = x := fun x hx => env.u_small hx
  unfold handlePacket
  dsimp only
  rw [hmsg, if_neg (by decide), if_neg (by decide), if_pos rfl, handleGlobalRequest]
  dsimp only
  rw [hname, hu 0 (by omega), hu (1 + 4) (by omega), hlen,
    if_neg (by omega), if_pos (by omega), if_pos hreply]
  have hsend : ∀ s₁ : Ssh, s₁.c = s.c → s₁.g = s.g →
      (s₁.sendPacket env [MSG_REQUEST_FAILURE]).g = answer env s.g ∧
      (s₁.sendPacket env [MSG_REQUEST_FAILURE]).c = { s.c with
        sendSeq := (s₁.sendPacket env [MSG_REQUEST_FAILURE]).c.sendSeq
        trace := (s₁.sendPacket env [MSG_REQUEST_FAILURE]).c.trace } := by
    intro s₁ hc hg
    rw [sendPacket, hc, hplain, if_neg (by decide), ← hg]
    rw [← hg] at hroom
    rw [← hc]
    exact sendUnenc_answer hroom
  refine hsend _ ?_ ?_
  all_goals
    dsimp only [Ssh.read]
    split <;> rfl

theorem decodePlain_ping {c : SshConn} (hib : c.ib = pingFrame ++ rest) :
    decodePlain env beyond c =
      .packet c (c.ib.take 11) ⟨fun k => c.mem beyond (5 + k), 0, 6⟩ 11 := by
  have hmem : ∀ k < 11, c.mem beyond k = pingFrame.getD k 0 := by
    intro k hk
    have hk' : k < pingFrame.length := hk
    rw [SshConn.mem, hib, List.getD_eq_getElem?_getD, List.getElem?_append_left hk',
      List.getD_eq_getElem?_getD, List.getElem?_eq_getElem hk']
    rfl
  have hlen : c.ib.length = 11 + rest.length := by
    rw [hib, List.length_append]
    rfl
  have hword : rd32 (c.mem beyond) 0 = 7 := by
    simp only [rd32, hmem 0 (by omega), hmem (0 + 1) (by omega), hmem (0 + 2) (by omega),
      hmem (0 + 3) (by omega)]
    rfl
  have hpad : (c.mem beyond 4).toNat = 0 := by
    rw [hmem 4 (by omega)]
    rfl
  have hsz : SSH_IB_SZ = 2048 := rfl
  unfold decodePlain
  dsimp only
  rw [if_neg (by omega), hword, env.u_small (by omega), env.u_small (by omega),
    if_neg (by omega), if_neg (by omega), hpad, if_neg (by omega)]

/-- A turn of the input loop that answers a request. -/
theorem inputStep_ping (env : SshEnv) (beyond : Nat → UInt8) (hst : s.c.state ≠ .version) (hrecv : s.c.recvEncrypted = false)
    (hplain : s.c.sendEncrypted = false) (hib : s.c.ib = pingFrame ++ rest)
    (hroom : s.g.ob.length + 16 ≤ SSH_OB_SZ) :
    ∃ s', inputStep env beyond s = (.progressed, s') ∧ s.Answered env 1 s' rest := by
  have hbytes : slice (fun k => s.c.mem beyond (5 + k)) 0 6 =
      [MSG_GLOBAL_REQUEST, 0, 0, 0, 0, 1] := by
    rw [slice_shift, slice_mem s.c beyond (by rw [hib]; simp [pingFrame]), hib]
    rfl
  rw [inputStep, if_neg hst, ← tryPacketWith_handlePacket, tryPacketWith, decode, hrecv,
    if_neg (by decide), decodePlain_ping hib, Decoded.run]
  generalize s.packetEvent _ _ = e
  generalize hs₁ : ({ s.note e with reads := [] } : Ssh) = s₁
  have hc₁ : s₁.c = { s.c with trace := s₁.c.trace } := by rw [← hs₁]; rfl
  have hg₁ : s₁.g = s.g := by rw [← hs₁]; rfl
  obtain ⟨hg, hc⟩ := handlePacket_ping (s := s₁) env
    ⟨fun k => s.c.mem beyond (5 + k), 0, 6⟩ rfl hbytes (by rw [hc₁]; exact hplain)
    (by rw [hg₁]; exact hroom)
  refine ⟨_, rfl, ?_, ?_⟩
  · dsimp only [Ssh.finish, Ssh.ibConsume]
    rw [hc, hc₁, hib]
    rfl
  · rw [← hg₁]
    exact hg

theorem length_ob_answer (env : SshEnv) (g : SshShared) :
    (answer env g).ob.length = g.ob.length + 16 := by
  simp [answer, length_unencFrame, SshEnv.rngBytes]

theorem length_ob_answers (env : SshEnv) : ∀ (n : Nat) (g : SshShared),
    ((answer env)^[n] g).ob.length = g.ob.length + 16 * n
  | 0, _ => rfl
  | n + 1, g => by
      rw [Function.iterate_succ_apply, length_ob_answers env n, length_ob_answer]
      omega

/-- A buffer of requests is answered as a whole. -/
theorem inputLoop_pings (env : SshEnv) (beyond : Nat → Nat → UInt8) (n : Nat) :
    ∀ (fuel t : Nat) {s : Ssh}, n < fuel → s.c.live = true → s.c.state ≠ .version →
    s.c.recvEncrypted = false → s.c.sendEncrypted = false →
    s.c.ib = (List.replicate n pingFrame).flatten → s.g.ob.length + 16 * n ≤ SSH_OB_SZ →
    ∃ s', inputLoop env beyond fuel t s = .back s' ∧ s.Answered env n s' [] := by
  induction n with
  | zero =>
      intro fuel t s hfuel hlive hst hrecv hplain hib hroom
      obtain ⟨fuel, rfl⟩ := Nat.exists_eq_succ_of_ne_zero (Nat.ne_of_gt hfuel)
      replace hib : s.c.ib = [] := hib
      have hstep : inputStep env (beyond t) s = (.needMore, s) := by
        rw [inputStep, if_neg hst, tryPacket, hrecv, if_neg (by decide), tryPlain, hib,
          List.length_nil, if_pos (by omega)]
      refine ⟨s, by rw [inputLoop, if_pos hlive, hstep], ?_, rfl⟩
      rw [← hib]
  | succ n ih =>
      intro fuel t s hfuel hlive hst hrecv hplain hib hroom
      obtain ⟨fuel, rfl⟩ := Nat.exists_eq_succ_of_ne_zero (Nat.ne_of_gt (Nat.zero_lt_of_lt hfuel))
      rw [List.replicate_succ, List.flatten_cons] at hib
      obtain ⟨s₁, hstep, ha⟩ := inputStep_ping env (beyond t) hst hrecv hplain hib (by omega)
      have hc := ha.conn
      have hg : s₁.g = answer env s.g := ha.shared
      obtain ⟨s', hloop, ha'⟩ := ih fuel (t + 1) (s := s₁) (by omega)
        (by rw [hc]; exact hlive) (by rw [hc]; exact hst) (by rw [hc]; exact hrecv)
        (by rw [hc]; exact hplain) (by rw [hc]) (by rw [hg, length_ob_answer]; omega)
      refine ⟨s', by rw [inputLoop, if_pos hlive, hstep]; exact hloop, ?_, ?_⟩
      · have hc' := ha'.conn
        rw [hc] at hc'
        exact hc'
      · rw [ha'.shared, hg, Function.iterate_succ_apply]

/-- A chunk of requests is answered by `ssh_input`. -/
theorem sshInput_pings (env : SshEnv) (beyond : Nat → Nat → UInt8) {n fuel : Nat} {s : Ssh} (hfuel : n < fuel)
    (hlive : s.c.live = true) (hst : s.c.state ≠ .version) (hrecv : s.c.recvEncrypted = false)
    (hplain : s.c.sendEncrypted = false) (hib : s.c.ib = [])
    (hroom : s.g.ob.length + 16 * n ≤ SSH_OB_SZ) :
    ∃ s', sshInput env beyond fuel s (List.replicate n pingFrame).flatten = .back s' ∧
      s.Answered env n s' [] := by
  have herr : s.c.state ≠ .error := by
    intro h
    simp [SshConn.live, h] at hlive
  have hlen : (List.replicate n pingFrame).flatten.length = 11 * n := by
    simp [pingFrame]
    omega
  have hsz : SSH_OB_SZ = 2048 := rfl
  have hsz' : SSH_IB_SZ = 2048 := rfl
  rw [sshInput, if_neg herr, hib, List.length_nil, hlen, env.u_small (by omega),
    if_neg (by omega), if_neg (by omega), List.nil_append]
  obtain ⟨s', hloop, ha⟩ := inputLoop_pings env beyond n fuel 0
    (s := { s with c := { s.c with ib := (List.replicate n pingFrame).flatten } })
    hfuel hlive hst hrecv hplain rfl hroom
  exact ⟨s', hloop, ha.conn, ha.shared⟩

end Dossh
