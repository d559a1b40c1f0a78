import Dossh.Lib.History
import Dossh.Ssh.Run

/-!
# The authentication gate

Whoever is let into a box with a password or with authorized keys has shown a credential: on
the encrypted transport, in the state `AUTH`, and bound to the session if it is a signature.
`AuthInv` is the invariant of a connection, kept by everything a packet can do.
-/

namespace Dossh

open Ssh

/-! ## The invariant -/

/-- The box is not open to everybody. -/
def SshEnv.Gated (env : SshEnv) : Prop := env.havePassword = true ∨ env.authkeys ≠ []

/-- A packet of the history was a `USERAUTH_REQUEST` with a credential, received encrypted in
the state `AUTH`. -/
def Credentialed (env : SshEnv) (sessionId : List UInt8) (trace : List SshEvent) : Prop :=
  ∃ seq wire payload, SshEvent.packet .auth true seq sessionId wire payload ∈ trace ∧
    (PasswordRequest env payload ∨ PublickeyRequest env sessionId payload)

theorem Credentialed.mono {env : SshEnv} {sid : List UInt8} {trace trace' : List SshEvent}
    (h : Credentialed env sid trace) (hsub : ∀ e ∈ trace, e ∈ trace') :
    Credentialed env sid trace' := by
  obtain ⟨seq, wire, payload, hmem, hcred⟩ := h
  exact ⟨seq, wire, payload, hsub _ hmem, hcred⟩

/-- The connection was let in. -/
def SshConn.admitted (c : SshConn) : Prop :=
  c.authenticated = true ∨ c.state = .session ∨ c.chanOpen = true

/-- A keystroke comes after a credential. -/
def KeyOk (env : SshEnv) (sessionId : List UInt8) : SshEvent → List SshEvent → Prop
  | .key _, past => Credentialed env sessionId past
  | _, _ => True

/-- The invariant of the gate. -/
structure AuthInv (env : SshEnv) (c : SshConn) : Prop where
  early : c.state.early = true → c.recvEncrypted = false
  late : c.state.late = true → c.recvEncrypted = true
  admitted : c.admitted → Credentialed env c.sessionId c.trace
  keys : History.Always (KeyOk env c.sessionId) c.trace
  typed : c.recvEncrypted = false → ∀ b, SshEvent.key b ∉ c.trace
  plain : c.recvEncrypted = false → ¬ c.admitted

/-! ## Steps -/

theorem always_keyOk_append {env : SshEnv} {sid : List UInt8} {trace : List SshEvent}
    (h : History.Always (KeyOk env sid) trace) :
    ∀ {es : List SshEvent}, (∀ e ∈ es, e.isFrame = true) →
      History.Always (KeyOk env sid) (es ++ trace)
  | [], _ => h
  | e :: es, hes => by
      refine ⟨?_, always_keyOk_append h fun e' he' => hes e' (List.mem_cons_of_mem _ he')⟩
      cases e with
      | key b => cases hes _ List.mem_cons_self
      | _ => trivial

/-- Once there is a credential, everything typed comes after it. -/
theorem always_keyOk_of_cred {env : SshEnv} {sid : List UInt8} {trace : List SshEvent}
    (h : History.Always (KeyOk env sid) trace) (hcred : Credentialed env sid trace) :
    ∀ es : List SshEvent, History.Always (KeyOk env sid) (es ++ trace)
  | [] => h
  | e :: es => by
      refine ⟨?_, always_keyOk_of_cred h hcred es⟩
      cases e with
      | key b => exact hcred.mono fun e he => List.mem_append_right _ he
      | _ => trivial

/-- Before the keys are fixed there are no keystrokes, so the session id does not matter. -/
theorem always_keyOk_of_none {env : SshEnv} {sid : List UInt8} :
    ∀ {trace : List SshEvent}, (∀ b, SshEvent.key b ∉ trace) →
      History.Always (KeyOk env sid) trace
  | [], _ => trivial
  | e :: trace, h => by
      refine ⟨?_, always_keyOk_of_none fun b hb => h b (List.mem_cons_of_mem _ hb)⟩
      cases e with
      | key b => exact absurd List.mem_cons_self (h b)
      | _ => trivial

namespace AuthInv

variable {env : SshEnv}

/-- Only six fields matter. -/
theorem congr {c c' : SshConn} (h : AuthInv env c) (hst : c'.state = c.state)
    (henc : c'.recvEncrypted = c.recvEncrypted) (hauth : c'.authenticated = c.authenticated)
    (hchan : c'.chanOpen = c.chanOpen) (hsid : c'.sessionId = c.sessionId)
    (htr : c'.trace = c.trace) : AuthInv env c' := by
  refine ⟨?_, ?_, ?_, ?_, ?_, ?_⟩
  · rw [hst, henc]
    exact h.early
  · rw [hst, henc]
    exact h.late
  · unfold SshConn.admitted
    rw [hauth, hst, hchan, hsid, htr]
    exact h.admitted
  · rw [hsid, htr]
    exact h.keys
  · rw [henc, htr]
    exact h.typed
  · unfold SshConn.admitted
    rw [henc, hauth, hst, hchan]
    exact h.plain

theorem setIb {c : SshConn} (h : AuthInv env c) (ib : List UInt8) :
    AuthInv env { c with ib := ib } := h.congr rfl rfl rfl rfl rfl rfl

/-- Recording a packet. -/
theorem note {c : SshConn} (h : AuthInv env c) {e : SshEvent} (he : ∀ b, e ≠ .key b) :
    AuthInv env { c with trace := e :: c.trace } := by
  refine ⟨h.early, h.late, fun ha => (h.admitted ha).mono fun e he => List.mem_cons_of_mem _ he,
    ⟨?_, h.keys⟩, fun henc b hb => ?_, h.plain⟩
  · cases e with
    | key b => exact absurd rfl (he b)
    | _ => trivial
  · rcases List.mem_cons.mp hb with rfl | hb'
    · exact he b rfl
    · exact h.typed henc b hb'

/-- A call of which only frames came.  The session id may change while the handshake is
early. -/
theorem calm {s s' : Ssh} (h : AuthInv env s.c) (hc : s.Calm s')
    (hearly : s'.c.state.early = true → s.c.recvEncrypted = false)
    (hlate : s'.c.state.late = true → s.c.recvEncrypted = true)
    (hsession : s'.c.state = .session → s.c.admitted)
    (hsid : s'.c.sessionId = s.c.sessionId ∨ s.c.recvEncrypted = false) : AuthInv env s'.c := by
  have hcore := hc.core
  simp only [SshConn.core, Prod.mk.injEq] at hcore
  obtain ⟨-, -, henc, hauth⟩ := hcore
  obtain ⟨es, htr, hes⟩ := hc.logs
  have hadm : s'.c.admitted → s.c.admitted := by
    rintro (ha | ha | ha)
    · exact .inl (hauth ▸ ha)
    · exact hsession ha
    · exact .inr (.inr (hc.chanOpen ▸ ha))
  have htyped : s'.c.recvEncrypted = false → ∀ b, SshEvent.key b ∉ s'.c.trace :=
    fun he b hb => h.typed (henc ▸ he) b (hc.logs.old hb rfl)
  refine ⟨fun he => henc ▸ hearly he, fun hl => henc ▸ hlate hl, fun ha => ?_, ?_, htyped,
    fun hno ha => h.plain (henc ▸ hno) (hadm ha)⟩
  · rcases hsid with hsid | hplain
    · rw [hsid]
      exact (h.admitted (hadm ha)).mono fun e he => hc.logs.mem he
    · exact absurd (hadm ha) (h.plain hplain)
  · rcases hsid with hsid | hplain
    · rw [hsid, htr]
      exact always_keyOk_append h.keys hes
    · exact always_keyOk_of_none (htyped (henc ▸ hplain))

theorem tame {s s' : Ssh} (h : AuthInv env s.c) (ht : s.Tame s') : AuthInv env s'.c := by
  have hkeys := ht.keys
  simp only [SshConn.keys, Prod.mk.injEq] at hkeys
  have hstate : ∀ p : SshState → Bool, p .error = false → p .closed = false →
      p s'.c.state = true → p s.c.state = true := by
    intro p herr hclosed hp
    rcases ht.settles with hs | hs | hs
    · rw [← hs]
      exact hp
    · rw [hs, herr] at hp
      cases hp
    · rw [hs, hclosed] at hp
      cases hp
  refine h.calm ht.toCalm (fun he => h.early (hstate _ rfl rfl he))
    (fun hl => h.late (hstate _ rfl rfl hl)) (fun hs => ?_) (.inl hkeys.2.1)
  have := hstate (fun st => st == .session) rfl rfl (by simp [hs])
  exact .inr (.inl (by simpa using this))

/-- The channel of a session. -/
theorem works {s s' : Ssh} (h : AuthInv env s.c) (hst : s.c.state = .session) (hw : s.Works s') :
    AuthInv env s'.c := by
  have hcore := hw.core
  simp only [SshConn.core, Prod.mk.injEq] at hcore
  have hkeys := hw.keys
  simp only [SshConn.keys, Prod.mk.injEq] at hkeys
  have henc : s'.c.recvEncrypted = true := by
    rw [hcore.2.2.1]
    exact h.late (by rw [hst]; rfl)
  have hcred := h.admitted (.inr (.inl hst))
  obtain ⟨es, htr, -⟩ := hw.logs
  refine ⟨fun he => ?_, fun _ => henc, fun _ => ?_, ?_, fun hno => ?_, fun hno => ?_⟩
  · rcases hw.settles with hs | hs | hs
    · rw [hs, hst] at he
      cases he
    · rw [hs] at he
      cases he
    · rw [hs] at he
      cases he
  · rw [hkeys.2.1]
    exact hcred.mono fun e he => hw.logs.mem he
  · rw [hkeys.2.1, htr]
    exact always_keyOk_of_cred h.keys hcred es
  · rw [henc] at hno
    cases hno
  · rw [henc] at hno
    cases hno

/-- A granted request, whose packet is in the history. -/
theorem granted {s s' : Ssh} {payload wire : List UInt8} {seq : BitVec 32} (h : AuthInv env s.c)
    (hgated : env.Gated) (hst : s.c.state = .auth) (hgr : s.Grants s')
    (hg : Granted env s.c.sessionId payload)
    (hmem : SshEvent.packet .auth true seq s.c.sessionId wire payload ∈ s.c.trace) :
    AuthInv env s'.c := by
  obtain ⟨s₁, htame, hc⟩ := hgr
  have hcore := htame.core
  simp only [SshConn.core, Prod.mk.injEq] at hcore
  have hkeys := htame.keys
  simp only [SshConn.keys, Prod.mk.injEq] at hkeys
  have henc : s₁.c.recvEncrypted = true := by
    rw [hcore.2.2.1]
    exact h.late (by rw [hst]; rfl)
  have hreq : PasswordRequest env payload ∨ PublickeyRequest env s.c.sessionId payload := by
    rcases hg with ⟨hpw, hkey⟩ | hreq
    · rcases hgated with hgate | hgate
      · rw [hpw] at hgate
        cases hgate
      · exact absurd hkey hgate
    · exact hreq
  have hcred : Credentialed env s₁.c.sessionId s₁.c.trace := by
    rw [hkeys.2.1]
    exact ⟨seq, wire, payload, htame.logs.mem hmem, hreq⟩
  rw [hc]
  refine ⟨fun he => ?_, fun _ => henc, fun _ => hcred, (h.tame htame).keys, fun hno => ?_,
    fun hno => ?_⟩
  · cases he
  · rw [henc] at hno
    cases hno
  · rw [henc] at hno
    cases hno

/-- Everything a packet can do keeps the gate. -/
theorem handled {pl : Payload} {s s' : Ssh} {wire : List UInt8} {seq : BitVec 32}
    (h : AuthInv env s.c) (hgated : env.Gated) (hh : Handled env pl s s')
    (hlen : s.c.state = .auth → pl.len ≤ SSH_IB_SZ)
    (hmem : SshEvent.packet s.c.state s.c.recvEncrypted seq s.c.sessionId wire pl.bytes ∈
      s.c.trace) : AuthInv env s'.c := by
  cases hh with
  | tame ht => exact h.tame ht
  | kexinit hst hc hk hst' =>
      have hplain := h.early (by rw [hst]; rfl)
      refine h.calm hc (fun _ => hplain) (fun hl => ?_) (fun hs => ?_) (.inr hplain)
      · rw [hst'] at hl
        cases hl
      · rw [hst'] at hs
        cases hs
  | ecdh hst hc hst' =>
      have hplain := h.early (by rw [hst]; rfl)
      refine h.calm hc (fun _ => hplain) (fun hl => ?_) (fun hs => ?_) (.inr hplain)
      · rw [hst'] at hl
        cases hl
      · rw [hst'] at hs
        cases hs
  | newkeys hst hc =>
      have hplain := h.early (by rw [hst]; rfl)
      rw [hc]
      refine ⟨fun he => ?_, fun _ => rfl, fun ha => ?_, h.keys, fun hno => ?_, fun hno => ?_⟩
      · cases he
      · rcases ha with ha | ha | ha
        · exact absurd (.inl ha) (h.plain hplain)
        · cases ha
        · exact absurd (.inr (.inr ha)) (h.plain hplain)
      · cases hno
      · cases hno
  | service hst hc hk hst' =>
      simp only [SshConn.keys, Prod.mk.injEq] at hk
      have henc := h.late (by rw [hst]; rfl)
      refine h.calm hc (fun he => ?_) (fun _ => henc) (fun hs => ?_) (.inl hk.2.1)
      · rw [hst'] at he
        cases he
      · rw [hst'] at hs
        cases hs
  | granted hst hgr hg =>
      have henc := h.late (by rw [hst]; rfl)
      rw [hst, henc] at hmem
      exact h.granted hgated hst hgr (hg (hlen hst)) hmem
  | session hst hw => exact h.works hst hw

/-- A dispatched packet. -/
theorem dispatch {s : Ssh} (h : AuthInv env s.c) (hgated : env.Gated) (wire : List UInt8)
    (mem : Nat → UInt8) {n : Nat} (hauth : s.c.state = .auth → n ≤ SSH_IB_SZ) :
    AuthInv env (s.dispatch env wire mem n).c :=
  (h.note (e := s.packetEvent wire (slice mem 0 n)) (fun _ => nofun)).handled hgated
    (dispatch_handled env s wire mem n) hauth List.mem_cons_self

theorem finish {s : Ssh} (h : AuthInv env s.c) (need : Nat) : AuthInv env (s.finish need).c :=
  h.congr rfl rfl rfl rfl rfl rfl

/-- A turn of the loop. -/
theorem turn (hgated : env.Gated) {s s' : Ssh} {r : TryRes} (h : AuthInv env s.c)
    (ht : Turn env s r s') : AuthInv env s'.c := by
  cases ht with
  | waits => exact h
  | fails s₁ hs₁ why =>
      have h₁ : AuthInv env s₁.c := by
        rcases hs₁ with rfl | rfl
        · exact h
        · exact h.setIb _
      exact h₁.tame (.fail s₁ why)
  | wild => exact h
  | banner hst k hk => exact h.setIb _
  | version hst k hk line =>
      have hplain := h.early (by rw [hst]; rfl)
      refine ⟨fun _ => hplain, (fun hl => by cases hl), fun ha => ?_, h.keys, h.typed,
        fun _ ha => ?_⟩
      all_goals
        rcases ha with ha | ha | ha
        · exact absurd (.inl ha) (h.plain hplain)
        · cases ha
        · exact absurd (.inr (.inr ha)) (h.plain hplain)
  | plain hst henc mem beyond n hib hlen hneed =>
      refine (h.dispatch hgated _ mem fun hauth => ?_).finish _
      have := h.late (by rw [hauth]; rfl)
      rw [henc] at this
      cases this
  | opened hst henc hv beyond padlen hpad hle =>
      have ho : AuthInv env (s.c.opened env) := h.setIb _
      refine (ho.dispatch (s := { s with c := s.c.opened env }) hgated _ _ fun _ => ?_).finish _
      have := hv.fits
      omega

theorem fresh : AuthInv env SshConn.fresh := by
  have hno : ¬ SshConn.fresh.admitted := by
    rintro (ha | ha | ha) <;> cases ha
  refine ⟨fun _ => rfl, (fun hl => by cases hl), fun ha => absurd ha hno, ⟨trivial, trivial⟩,
    fun _ b hb => ?_, fun _ => hno⟩
  simp [SshConn.fresh] at hb

theorem reach (hgated : env.Gated) {s : Ssh} (h : SshReach env s) : AuthInv env s.c :=
  h.induct fresh (fun _ _ h => h.setIb _)
    (fun _ _ _ h _ ht => h.turn hgated ht) fun _ _ h ht => h.tame ht

end AuthInv

/-! ## Probes -/

/-- A `publickey` request with the flag `FALSE`. -/
def ProbeRequest (payload : List UInt8) : Prop :=
  ∃ user service rest : List UInt8,
    payload = [50] ++ putStr user ++ putStr service ++ putNl "publickey" ++ [0] ++ rest

/-- The method of a request and what follows it are determined by its bytes. -/
theorem request_inj {user service method rest user' service' method' rest' : List UInt8}
    (hlen : ([50] ++ (putStr user ++ (putStr service ++ (putStr method ++ rest)))).length ≤
      SSH_IB_SZ)
    (h : [50] ++ (putStr user ++ (putStr service ++ (putStr method ++ rest))) =
      [50] ++ (putStr user' ++ (putStr service' ++ (putStr method' ++ rest')))) :
    method = method' ∧ rest = rest' := by
  have hlen' := hlen
  rw [h] at hlen'
  unfold SSH_IB_SZ at hlen hlen'
  simp only [List.length_append, putStr] at hlen hlen'
  obtain ⟨-, h1⟩ := List.append_inj h rfl
  obtain ⟨-, h2⟩ := putStr_append_inj (by omega) (by omega) h1
  obtain ⟨-, h3⟩ := putStr_append_inj (by omega) (by omega) h2
  exact putStr_append_inj (by omega) (by omega) h3

/-- A probe is no credential. -/
theorem ProbeRequest.not_granted {env : SshEnv} (hgated : env.Gated) {sid payload : List UInt8}
    (hlen : payload.length ≤ SSH_IB_SZ) (hprobe : ProbeRequest payload) :
    ¬ Granted env sid payload := by
  obtain ⟨user, service, rest, rfl⟩ := hprobe
  rintro (⟨hpw, hkey⟩ | ⟨user', service', rest', heq⟩ |
    ⟨user', service', blob, sigblob, rest', -, -, -, -, flag, heq, hflag, -⟩)
  · rcases hgated with hgate | hgate
    · rw [hpw] at hgate
      cases hgate
    · exact hgate hkey
  · simp only [List.append_assoc, putNl] at hlen heq
    have hmethod := (request_inj hlen heq).1
    exact absurd hmethod (by decide)
  · simp only [List.append_assoc, putNl] at hlen heq
    have hrest := (request_inj hlen heq).2
    simp only [List.cons_append, List.cons.injEq] at hrest
    exact hflag hrest.1.symm

/-- A packet authenticates only if it is granted. -/
theorem Handled.authenticated {env : SshEnv} {pl : Payload} {s s' : Ssh}
    (h : Handled env pl s s') (hlen : pl.len ≤ SSH_IB_SZ)
    (hno : ¬ Granted env s.c.sessionId pl.bytes) :
    s'.c.authenticated = s.c.authenticated := by
  have hcore : s'.c.core = s.c.core → s'.c.authenticated = s.c.authenticated := by
    intro hc
    simp only [SshConn.core, Prod.mk.injEq] at hc
    exact hc.2.2.2
  cases h with
  | tame h => exact hcore h.core
  | kexinit hst h hk hst' => exact hcore h.core
  | ecdh hst h hst' => exact hcore h.core
  | newkeys hst h => rw [h]
  | service hst h hk hst' => exact hcore h.core
  | granted hst h hg => exact absurd (hg hlen) hno
  | session hst h => exact hcore h.core

/-- A gated box lets nobody in without a credential, and no keystroke before it; a probe
authenticates nobody. -/
theorem ssh_auth_gate {env : SshEnv} (hgated : env.Gated) {s : Ssh} (hreach : SshReach env s) :
    ((s.c.authenticated = true ∨ s.c.state = .session ∨ s.c.chanOpen = true) →
      Credentialed env s.c.sessionId s.c.trace) ∧
    (∀ b past, (SshEvent.key b :: past) <:+ s.c.trace → Credentialed env s.c.sessionId past) ∧
    ∀ pl : Payload, pl.len ≤ SSH_IB_SZ → ProbeRequest pl.bytes →
      (handlePacket env s pl).c.authenticated = s.c.authenticated := by
  have h := AuthInv.reach hgated hreach
  refine ⟨h.admitted, fun b past hpast => h.keys.at hpast, fun pl hlen hprobe => ?_⟩
  refine (handlePacket_handled env s pl).authenticated hlen (hprobe.not_granted hgated ?_)
  rw [Payload.bytes, length_slice]
  exact hlen

theorem ssh_auth_gate_login :
    sampleEnv.Gated ∧ ∃ s, SshReach sampleEnv s ∧ s.c.authenticated = true ∧
      Credentialed sampleEnv s.c.sessionId s.c.trace := by
  obtain ⟨s, hreach, -, hauth⟩ := login_run
  have hgated : sampleEnv.Gated := .inl (by decide)
  exact ⟨hgated, s, hreach, hauth, (ssh_auth_gate hgated hreach).1 (.inl hauth)⟩

end Dossh
