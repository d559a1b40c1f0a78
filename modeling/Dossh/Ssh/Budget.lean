import Dossh.Ssh.Credit

/-!
# The budget of attempts

Every refused attempt but those with the method `none` is counted in `auth_fails`, and the third
one closes the connection.  `tries` counts them from the events of a connection: a request that
was handled in state `AUTH`, and a refusal framed behind it.  The two counts agree as long as the
server waits for a login.
-/

namespace Dossh

open Ssh

/-! ## Attempts -/

/-- The string at an offset, and the offset behind it. -/
def stringAt (bytes : List UInt8) (o : Nat) : Option (List UInt8 × Nat) :=
  if o > bytes.length ∨ bytes.length - o < 4 then none
  else if wordAt bytes o > bytes.length - o - 4 then none
  else some ((bytes.drop (o + 4)).take (wordAt bytes o), o + 4 + wordAt bytes o)

/-- The method of a request that can be read. -/
def requestMethod (payload : List UInt8) : Option (List UInt8) :=
  (stringAt payload 1).bind fun user =>
    (stringAt payload user.2).bind fun service =>
      (stringAt payload service.2).map Prod.fst

/-- A request for authentication with another method than `none`. -/
def SshEvent.isTry : SshEvent → Bool
  | .packet .auth _ _ _ _ payload => payload.headD 0 = MSG_USERAUTH_REQUEST &&
      (requestMethod payload).any (· ≠ ascii "none")
  | _ => false

/-- A packet that refuses. -/
def SshEvent.isRefusal : SshEvent → Bool
  | .frame _ _ payload _ =>
      payload.headD 0 = MSG_USERAUTH_FAILURE || payload.headD 0 = MSG_DISCONNECT
  | _ => false

/-- The attempts that were refused.  The events stand newest first. -/
def tries : List SshEvent → Nat
  | [] => 0
  | e :: trace => (if e.isRefusal && trace.head?.any SshEvent.isTry then 1 else 0) + tries trace

theorem tries_cons (e : SshEvent) (trace : List SshEvent) : tries (e :: trace) =
    (if e.isRefusal && trace.head?.any SshEvent.isTry then 1 else 0) + tries trace := rfl

/-- The events of a packet that is no attempt do not count. -/
theorem tries_append {es : List SshEvent} (hes : ∀ e ∈ es, e.inner = true) {trace : List SshEvent}
    (h : trace.head?.any SshEvent.isTry = false) :
    tries (es ++ trace) = tries trace ∧ (es ++ trace).head?.any SshEvent.isTry = false := by
  induction es with
  | nil => exact ⟨rfl, h⟩
  | cons e es ih =>
      obtain ⟨htries, hhead⟩ := ih fun e he => hes e (List.mem_cons_of_mem _ he)
      have he := hes e List.mem_cons_self
      rw [List.cons_append, tries_cons, hhead, Bool.and_false, htries]
      refine ⟨Nat.zero_add _, ?_⟩
      cases e with
      | packet => cases he
      | _ => rfl

/-! ## The method of a request -/

section

variable {env : SshEnv} {g : SshShared} {s s' : Ssh} {pl : Payload}

/-- `rd_string` depends on the bytes only. -/
theorem rdString_stringAt (pl : Payload) (o : Nat) :
    (rdString pl o).map (fun q => (q.1.bytes, q.2)) = stringAt pl.bytes o := by
  have hlen : pl.bytes.length = pl.len := by rw [Payload.bytes, length_slice]
  unfold rdString stringAt
  rw [hlen]
  split
  · rfl
  next hroom =>
    have hword : pl.u32 o = wordAt pl.bytes o := Payload.u32_of_bytes rfl (by omega)
    dsimp only
    rw [← hword]
    split
    · rfl
    next hfits =>
      have hpart : (pl.sub (o + 4) (pl.u32 o)).bytes = (pl.bytes.drop (o + 4)).take (pl.u32 o) := by
        rw [Payload.bytes, Payload.bytes, drop_slice,
          (by omega : pl.len - (o + 4) = pl.u32 o + (pl.len - (o + 4) - pl.u32 o)), slice_add,
          List.take_left' (length_slice _ _ _)]
        rfl
      rw [Option.map_some, hpart]

theorem stringAt_none {o : Nat} (h : rdString pl o = none) : stringAt pl.bytes o = none := by
  rw [← rdString_stringAt, h]
  rfl

theorem stringAt_some {o o' : Nat} {part : Payload} (h : rdString pl o = some (part, o')) :
    stringAt pl.bytes o = some (part.bytes, o') := by
  rw [← rdString_stringAt, h]
  rfl

/-- A request cannot be read, or is judged by its method. -/
theorem userauthVerdict_method (env : SshEnv) (sid : List UInt8) (pl : Payload) :
    requestMethod pl.bytes = none ∧ userauthVerdict env sid pl = .malformed ∨
    ∃ o user service method, requestMethod pl.bytes = some (Payload.bytes method) ∧
      userauthVerdict env sid pl = methodVerdict env sid pl o user service method := by
  unfold requestMethod userauthVerdict
  cases huser : rdString pl 1 with
  | none =>
      rw [stringAt_none huser]
      exact .inl ⟨rfl, rfl⟩
  | some user =>
      rw [stringAt_some huser, Option.bind_some]
      dsimp only
      cases hservice : rdString pl user.2 with
      | none =>
          rw [stringAt_none hservice]
          exact .inl ⟨rfl, rfl⟩
      | some service =>
          rw [stringAt_some hservice, Option.bind_some]
          dsimp only
          cases hmethod : rdString pl service.2 with
          | none =>
              rw [stringAt_none hmethod]
              exact .inl ⟨rfl, rfl⟩
          | some method =>
              rw [stringAt_some hmethod]
              exact .inr ⟨method.2, user.1, service.1, method.1, rfl, rfl⟩

theorem pubkeySignedVerdict_refused {sid : List UInt8} {o : Nat}
    {user service algo blob key : Payload} {counted : Bool}
    (h : pubkeySignedVerdict env sid pl o user service algo blob key = .refused counted) :
    counted = true := by
  unfold pubkeySignedVerdict at h
  repeat' split at h
  all_goals
    cases h
    try rfl

theorem pubkeyVerdict_refused {sid : List UInt8} {o : Nat} {user service : Payload} {counted : Bool}
    (h : pubkeyVerdict env sid pl o user service = .refused counted) : counted = true := by
  unfold pubkeyVerdict at h
  repeat' split at h
  all_goals first
    | exact pubkeySignedVerdict_refused h
    | cases h; rfl
    | cases h

theorem passwordVerdict_refused {o : Nat} {counted : Bool}
    (h : passwordVerdict env pl o = .refused counted) : counted = true := by
  unfold passwordVerdict at h
  repeat' split at h
  all_goals
    cases h
    try rfl

/-- A refusal counts but for the method `none`. -/
theorem methodVerdict_refused {sid : List UInt8} {o : Nat} {user service method : Payload}
    {counted : Bool} (h : methodVerdict env sid pl o user service method = .refused counted) :
    counted = true ↔ method.bytes ≠ ascii "none" := by
  have hkey : ascii "publickey" ≠ ascii "none" := by decide
  have hpassword : ascii "password" ≠ ascii "none" := by decide
  unfold methodVerdict at h
  split at h
  · cases h
  split at h
  next hmethod =>
    rw [hmethod]
    refine iff_of_true ?_ hkey
    split at h
    · cases h
      rfl
    · exact pubkeyVerdict_refused h
  split at h
  next hmethod =>
    rw [Bool.and_eq_true, decide_eq_true_eq] at hmethod
    rw [hmethod.2]
    exact iff_of_true (passwordVerdict_refused h) hpassword
  · cases h
    exact decide_eq_true_iff

theorem userauthVerdict_refused {sid : List UInt8} {counted : Bool}
    (h : userauthVerdict env sid pl = .refused counted) :
    (requestMethod pl.bytes).any (· ≠ ascii "none") = counted := by
  rcases userauthVerdict_method env sid pl with ⟨-, hv⟩ | ⟨o, user, service, method, hm, hv⟩
  · rw [hv] at h
    cases h
  · rw [hv] at h
    have hcounted := methodVerdict_refused h
    rw [hm, Option.any_some]
    cases counted with
    | true => simpa using hcounted
    | false => simpa using hcounted

/-! ## The counter of the code -/

theorem Ssh.Sends.authFails (h : s.Sends s') : s'.c.authFails = s.c.authFails := by
  have hfails := congrArg SshConn.authFails h.conn
  exact hfails

theorem fail_authFails (s : Ssh) (why : String) : (s.fail why).c.authFails = s.c.authFails :=
  (Sends.fail s why).authFails

theorem negCheck_authFails (s : Ssh) (first : UInt8) (kex hk enc1 enc2 : Payload) :
    (negCheck s first kex hk enc1 enc2).2.c.authFails = s.c.authFails := by
  generalize hr : negCheck s first kex hk enc1 enc2 = r
  unfold negCheck at hr
  dsimp only at hr
  generalize hs₁ : (if kex.nlHas "curve25519-sha256" then s.readNlHas kex "curve25519-sha256"
      else (s.readNlHas kex "curve25519-sha256").readNlHas kex
        "curve25519-sha256@libssh.org") = s₁ at hr
  have h₁ : s₁.c.authFails = s.c.authFails := by
    rw [← hs₁]
    split <;> rfl
  repeat' split at hr
  all_goals
    subst hr
    exact h₁

theorem negotiate_authFails (env : SshEnv) (s : Ssh) (pl : Payload) :
    (negotiate env s pl).2.c.authFails = s.c.authFails := by
  generalize hr : negotiate env s pl = r
  unfold negotiate at hr
  generalize negLists env pl 10 17 = q at hr
  obtain ⟨reads, found⟩ := q
  cases found with
  | none =>
      subst hr
      rfl
  | some found =>
      dsimp only at hr
      split at hr
      · subst hr
        rfl
      · subst hr
        exact negCheck_authFails _ _ _ _ _ _

theorem handleKexinit_authFails (env : SshEnv) (s : Ssh) (pl : Payload) :
    (handleKexinit env s pl).c.authFails = s.c.authFails := by
  have hneg := negotiate_authFails env s pl
  unfold handleKexinit
  generalize negotiate env s pl = r at hneg ⊢
  obtain ⟨res, s₁⟩ := r
  cases res with
  | malformed => exact (fail_authFails s₁ _).trans hneg
  | noCommon => exact (fail_authFails s₁ _).trans hneg
  | ok => exact hneg

theorem handleEcdhInit_authFails (env : SshEnv) (s : Ssh) (pl : Payload) :
    (handleEcdhInit env s pl).c.authFails = s.c.authFails := by
  have hreply : ∀ (s : Ssh) (qC qS raw : List UInt8),
      (ecdhReply env s qC qS raw).c.authFails = s.c.authFails := by
    intro s qC qS raw
    obtain ⟨s₂, heq, hc, -⟩ := ecdhReply_conn env s qC qS raw
    have hfails := congrArg SshConn.authFails hc
    rw [heq]
    exact hfails
  unfold handleEcdhInit
  dsimp only
  repeat' split
  · rfl
  · exact fail_authFails s _
  · exact fail_authFails _ _
  · exact fail_authFails _ _
  · exact hreply _ _ _ _

theorem handleServiceRequest_authFails (env : SshEnv) (s : Ssh) (pl : Payload) :
    (handleServiceRequest env s pl).c.authFails = s.c.authFails := by
  unfold handleServiceRequest
  dsimp only
  repeat' split
  · exact fail_authFails s _
  · exact fail_authFails _ _
  · exact (Sends.sendPacket env _ _).authFails

theorem handleGlobalRequest_authFails (env : SshEnv) (s : Ssh) (pl : Payload) :
    (handleGlobalRequest env s pl).c.authFails = s.c.authFails := by
  unfold handleGlobalRequest
  dsimp only
  repeat' split
  · rfl
  · exact (Sends.sendPacket env _ _).authFails
  · rfl
  · rfl

/-- Only a request for authentication is counted. -/
theorem handlePacket_authFails (env : SshEnv) (hst : s.c.state ≠ .session)
    (hmsg : s.c.state = .auth → pl.msg ≠ MSG_USERAUTH_REQUEST) :
    (handlePacket env s pl).c.authFails = s.c.authFails := by
  unfold handlePacket
  generalize hs₁ : (if pl.len ≠ 0 then s.read pl 0 1 else s) = s₁
  have hc : s₁.c = s.c := by
    rw [← hs₁]
    split <;> rfl
  rw [← hc] at hst hmsg ⊢
  dsimp only
  split
  · rfl
  split
  · rfl
  split
  · exact handleGlobalRequest_authFails env s₁ pl
  · unfold handleByState
    split
    · split
      · exact fail_authFails s₁ _
      · exact handleKexinit_authFails env s₁ pl
    · split
      · exact fail_authFails s₁ _
      · exact handleEcdhInit_authFails env s₁ pl
    · split
      · exact fail_authFails s₁ _
      · rfl
    · split
      · exact fail_authFails s₁ _
      · exact handleServiceRequest_authFails env s₁ pl
    next hauth =>
      rw [if_neg (hmsg hauth)]
    next hsession => exact absurd hsession hst
    all_goals exact fail_authFails s₁ _

/-! ## The invariant -/

/-- The states in which nobody has logged in. -/
def SshState.awaits : SshState → Bool
  | .session | .closed | .error => false
  | _ => true

/-- The count of the code is right while the server waits for a login, and with the third refusal
the connection is over. -/
structure BudgetInv (c : SshConn) : Prop where
  calm : c.live = true ∨ c.chanOpen = true → c.trace.head?.any SshEvent.isTry = false
  counted : c.state.awaits = true →
    c.authFails = tries c.trace ∧ c.authenticated = false ∧ c.chanOpen = false
  left : c.live = true → tries c.trace < SSH_MAX_AUTH_TRIES
  bound : tries c.trace ≤ SSH_MAX_AUTH_TRIES
  spent : tries c.trace = SSH_MAX_AUTH_TRIES → c.authenticated = false ∧ c.chanOpen = false

theorem live_of_awaits {c : SshConn} (h : c.state.awaits = true) : c.live = true := by
  unfold SshConn.live
  generalize c.state = st at *
  cases st with
  | closed | error => cases h
  | _ => rfl

namespace BudgetInv

theorem left_of (h : BudgetInv s.c) (hlive : s.c.live = true ∨ s.c.chanOpen = true) :
    tries s.c.trace < SSH_MAX_AUTH_TRIES := by
  rcases hlive with hlive | hopen
  · exact h.left hlive
  · refine Nat.lt_of_le_of_ne h.bound fun hthree => ?_
    have hclosed := (h.spent hthree).2
    rw [hopen] at hclosed
    cases hclosed

/-- A step that counts nothing. -/
theorem uncounted (h : BudgetInv s.c) (hlive : s.c.live = true ∨ s.c.chanOpen = true)
    (hlogs : s.Logs SshEvent.inner s')
    (hstate : s'.c.state.awaits = true → s.c.state.awaits = true ∧
      s'.c.authFails = s.c.authFails ∧ s'.c.authenticated = s.c.authenticated ∧
        s'.c.chanOpen = s.c.chanOpen) :
    BudgetInv s'.c ∧ tries s'.c.trace = tries s.c.trace := by
  obtain ⟨es, htr, hes⟩ := hlogs
  obtain ⟨htries, hhead⟩ := tries_append hes (h.calm hlive)
  rw [← htr] at htries hhead
  have hleft := h.left_of hlive
  refine ⟨⟨fun _ => hhead, fun hst => ?_, fun _ => ?_, ?_, fun hthree => ?_⟩, htries⟩
  · obtain ⟨hst₀, hfails, hauth, hopen⟩ := hstate hst
    rw [hfails, htries, hauth, hopen]
    exact h.counted hst₀
  · rw [htries]
    exact hleft
  · rw [htries]
    exact h.bound
  · omega

/-- A step of a connection that is over. -/
theorem ended (h : BudgetInv s.c) (hlive : s'.c.live = false) (hopen : s.c.chanOpen = false)
    (htr : s'.c.trace = s.c.trace) (hauth : s'.c.authenticated = s.c.authenticated)
    (hopen' : s'.c.chanOpen = s.c.chanOpen) : BudgetInv s'.c := by
  refine ⟨?_, fun hst => ?_, fun hl => ?_, ?_, ?_⟩
  · rw [hlive, hopen', hopen]
    rintro (hl | hl) <;> cases hl
  · rw [live_of_awaits hst] at hlive
    cases hlive
  · rw [hlive] at hl
    cases hl
  · rw [htr]
    exact h.bound
  · rw [htr, hauth, hopen']
    exact h.spent

end BudgetInv

/-! ## A request -/

/-- A packet is queued as it is framed, if there is room. -/
theorem sendUnenc_room (env : SshEnv) (s : Ssh) (payload : List UInt8) : ∃ seq bytes,
    (s.sendUnenc env payload).c.trace = .frame false seq payload bytes :: s.c.trace ∧
    (s.g.ob.length + bytes.length ≤ SSH_OB_SZ →
      (s.sendUnenc env payload).g.ob = s.g.ob ++ bytes) := by
  unfold Ssh.sendUnenc
  dsimp only
  generalize be32 _ ++ [UInt8.ofNat _] = hdr
  generalize env.rngBytes s.g.rngPos _ = pad
  generalize hs₁ : Ssh.obAppend env (Ssh.rngSkip _ _) pad = s₁
  have htr : s₁.c.trace = s.c.trace := by
    rw [← hs₁, (Records.obAppend env _ _).1]
    exact (Records.obAppend env _ payload).1.trans (Records.obAppend env s hdr).1
  refine ⟨s₁.c.sendSeq, hdr ++ payload ++ pad, congrArg (_ :: ·) htr, fun hroom => ?_⟩
  rw [List.length_append, List.length_append] at hroom
  refine (congrArg (fun s => s.g.ob) hs₁).symm.trans ?_
  rw [obAppend_fits env s hdr (by omega),
    obAppend_fits env _ payload (by rw [List.length_append]; omega),
    obAppend_fits env _ pad (by simp only [Ssh.rngSkip, List.length_append]; omega)]
  simp only [Ssh.rngSkip, List.append_assoc]

theorem sendPacket_room (env : SshEnv) (s : Ssh) {payload : List UInt8}
    (hlen : payload.length ≤ SSH_ENC_MAX_PLEN) : ∃ enc seq bytes,
    (s.sendPacket env payload).c.trace = .frame enc seq payload bytes :: s.c.trace ∧
    (s.g.ob.length + bytes.length ≤ SSH_OB_SZ →
      (s.sendPacket env payload).g.ob = s.g.ob ++ bytes) := by
  unfold Ssh.sendPacket
  split
  · rw [Ssh.sendEnc, if_neg (Nat.not_lt.mpr hlen)]
    refine ⟨true, s.c.sendSeq, (s.aeadSeal env payload).1, (Records.obAppend env _ _).1,
      fun hroom => ?_⟩
    dsimp only
    rw [obAppend_fits env (s.aeadSeal env payload).2 _ hroom]
    rfl
  · exact ⟨false, sendUnenc_room env s payload⟩

/-- A packet that is not framed fails the connection. -/
theorem sendPacket_framed (env : SshEnv) (s : Ssh) (payload : List UInt8) :
    (s.sendPacket env payload).c.trace = s.c.trace ∧ (s.sendPacket env payload).c.state = .error ∨
    ∃ enc seq bytes,
      (s.sendPacket env payload).c.trace = .frame enc seq payload bytes :: s.c.trace := by
  by_cases hlen : payload.length ≤ SSH_ENC_MAX_PLEN
  · exact .inr (sendPacket_trace env s hlen)
  · unfold Ssh.sendPacket
    split
    · rw [Ssh.sendEnc, if_pos (Nat.not_le.mp hlen)]
      refine .inl ?_
      unfold Ssh.fail
      split
      · exact ⟨rfl, rfl⟩
      next hst => exact ⟨rfl, Decidable.not_not.mp hst⟩
    · obtain ⟨seq, bytes, htr⟩ := sendUnenc_trace env s payload
      exact .inr ⟨false, seq, bytes, htr⟩

/-- The connection at the call of `handle_userauth_request`. -/
structure Asked (e : SshEvent) (tr : List SshEvent) (c : SshConn) : Prop where
  state : c.state = .auth
  trace : c.trace = e :: tr
  packet : e.isRefusal = false
  fails : c.authFails = tries tr
  left : tries tr < SSH_MAX_AUTH_TRIES
  authenticated : c.authenticated = false
  chanOpen : c.chanOpen = false

theorem Asked.looks {e : SshEvent} {tr : List SshEvent} (h : Asked e tr s.c) (hl : s.Looks s') :
    Asked e tr s'.c := by
  rw [hl.conn]
  exact ⟨h.state, h.trace, h.packet, h.fails, h.left, h.authenticated, h.chanOpen⟩

/-- An answer. -/
theorem Asked.answer {e : SshEvent} {tr : List SshEvent} (h : Asked e tr s.c) {enc : Bool}
    {seq : BitVec 32} {payload bytes : List UInt8}
    (htr : s'.c.trace = .frame enc seq payload bytes :: s.c.trace) :
    tries s'.c.trace =
      (if SshEvent.isRefusal (.frame enc seq payload bytes) && e.isTry then 1 else 0) + tries tr ∧
    s'.c.trace.head?.any SshEvent.isTry = false := by
  rw [htr, h.trace, tries_cons, tries_cons, h.packet, Bool.false_and]
  exact ⟨by simp, rfl⟩

/-- The end of the budget: the connection is closed, with a `DISCONNECT` right behind the request.
It is queued if there is room. -/
structure Ssh.Spends (s s' : Ssh) (e : SshEvent) : Prop where
  state : s'.c.state = .closed
  answer : ∃ enc seq payload bytes, payload.headD 0 = MSG_DISCONNECT ∧
    s'.c.trace = .frame enc seq payload bytes :: e :: s.c.trace ∧
    (s.g.ob.length + bytes.length ≤ SSH_OB_SZ → s'.g.ob = s.g.ob ++ bytes)

/-- The invariant after a request, and what the third refusal does. -/
def Ssh.Budgeted (s s' : Ssh) (e : SshEvent) : Prop :=
  BudgetInv s'.c ∧ (tries s'.c.trace = SSH_MAX_AUTH_TRIES → s.Spends s' e)

/-- What `auth_reject` leaves behind. -/
theorem authReject_budget (env : SshEnv) {s₀ : Ssh} {e : SshEvent} (h : Asked e s₀.c.trace s.c)
    (hob : s.g.ob = s₀.g.ob) {counted : Bool} (hcounted : e.isTry = counted) :
    s₀.Budgeted (authReject env s counted) e := by
  have hmax : SSH_MAX_AUTH_TRIES = 3 := rfl
  have hleft := h.left
  unfold authReject
  dsimp only
  generalize hs₁ : (if counted then
    { s with c := { s.c with authFails := env.u (s.c.authFails + 1) } } else s) = s₁
  have hconn : s₁.c.state = s.c.state ∧ s₁.c.trace = s.c.trace ∧
      s₁.c.authenticated = s.c.authenticated ∧ s₁.c.chanOpen = s.c.chanOpen ∧ s₁.g = s.g := by
    rw [← hs₁]
    split <;> exact ⟨rfl, rfl, rfl, rfl, rfl⟩
  obtain ⟨hst, htr, hauth, hopen, hg⟩ := hconn
  have hfails : s₁.c.authFails = (if e.isTry then 1 else 0) + tries s₀.c.trace := by
    rw [← hs₁, hcounted]
    cases counted with
    | true =>
        rw [if_pos rfl, if_pos rfl, h.fails]
        dsimp only
        rw [env.u_small (by omega), Nat.add_comm]
    | false => rw [if_neg (by decide), if_neg (by decide), h.fails, Nat.zero_add]
  have hbound : (if e.isTry then 1 else 0) ≤ 1 := by split <;> omega
  -- a refusal counts as the code counts it
  have hanswer : ∀ {s' : Ssh} {enc seq payload bytes},
      payload.headD 0 = MSG_DISCONNECT ∨ payload.headD 0 = MSG_USERAUTH_FAILURE →
      s'.c.trace = .frame enc seq payload bytes :: s₁.c.trace →
      tries s'.c.trace = s₁.c.authFails ∧ s'.c.trace.head?.any SshEvent.isTry = false := by
    intro s' enc seq payload bytes hrefuses htr'
    rw [htr] at htr'
    obtain ⟨htries, hhead⟩ := h.answer htr'
    have hrefusal : SshEvent.isRefusal (.frame enc seq payload bytes) = true := by
      rw [SshEvent.isRefusal]
      rcases hrefuses with hrefuses | hrefuses
      all_goals
        rw [hrefuses]
        rfl
    rw [htries, hfails, hrefusal, Bool.true_and]
    exact ⟨rfl, hhead⟩
  split
  next hthree =>
    unfold sendDisconnect
    generalize hpl : [MSG_DISCONNECT] ++ _ ++ _ ++ _ = payload
    have hlen : payload.length ≤ SSH_ENC_MAX_PLEN := by
      rw [← hpl]
      decide
    have hrefuses : payload.headD 0 = MSG_DISCONNECT := by
      rw [← hpl]
      rfl
    obtain ⟨enc, seq, bytes, htr', hroom⟩ := sendPacket_room env s₁ hlen
    have hsends := Sends.sendPacket env s₁ payload
    have hauth' := congrArg SshConn.authenticated hsends.conn
    have hopen' := congrArg SshConn.chanOpen hsends.conn
    generalize s₁.sendPacket env payload = s₂ at *
    obtain ⟨htries, -⟩ := hanswer (.inl hrefuses) htr'
    refine ⟨⟨?_, nofun, nofun, ?_, ?_⟩, fun _ => ⟨rfl, enc, seq, payload, bytes, hrefuses, ?_, ?_⟩⟩
    · rintro (hlive | hchan)
      · cases hlive
      · exact absurd ((hopen'.trans (hopen.trans h.chanOpen)).symm.trans hchan) nofun
    · dsimp only
      omega
    · intro _
      exact ⟨hauth'.trans (hauth.trans h.authenticated), hopen'.trans (hopen.trans h.chanOpen)⟩
    · rw [← h.trace, ← htr]
      exact htr'
    · rw [← hob, ← hg]
      exact hroom
  next hfew =>
    unfold sendUserauthFailure
    dsimp only
    generalize hpl : [MSG_USERAUTH_FAILURE] ++ putNl _ ++ [0] = payload
    have hlen : payload.length ≤ SSH_ENC_MAX_PLEN := by
      rw [← hpl]
      split <;> decide
    have hrefuses : payload.headD 0 = MSG_USERAUTH_FAILURE := by
      rw [← hpl]
      rfl
    obtain ⟨enc, seq, bytes, htr'⟩ := sendPacket_trace env s₁ hlen
    have hsends := Sends.sendPacket env s₁ payload
    have hauth' := congrArg SshConn.authenticated hsends.conn
    have hopen' := congrArg SshConn.chanOpen hsends.conn
    have hfails' := hsends.authFails
    generalize s₁.sendPacket env payload = s₂ at *
    obtain ⟨htries, hhead⟩ := hanswer (.inr hrefuses) htr'
    refine ⟨⟨fun _ => hhead, fun _ => ⟨?_, ?_, ?_⟩, fun _ => ?_, ?_, ?_⟩, ?_⟩
    · rw [hfails', htries]
    · exact hauth'.trans (hauth.trans h.authenticated)
    · exact hopen'.trans (hopen.trans h.chanOpen)
    all_goals omega

/-- A request that was not refused. -/
theorem Asked.uncounted {s₀ : Ssh} {e : SshEvent} (h : Asked e s₀.c.trace s.c)
    (htr : s'.c.trace = s.c.trace ∧ s'.c.state = .error ∨
      ∃ enc seq payload bytes, SshEvent.isRefusal (.frame enc seq payload bytes) = false ∧
        s'.c.trace = .frame enc seq payload bytes :: s.c.trace)
    (hopen : s'.c.chanOpen = s.c.chanOpen)
    (hst : s'.c.state.awaits = true → s'.c.authFails = s.c.authFails ∧
      s'.c.authenticated = s.c.authenticated) : s₀.Budgeted s' e := by
  have hleft := h.left
  have hopen' : s'.c.chanOpen = false := hopen.trans h.chanOpen
  have htries : tries s'.c.trace = tries s₀.c.trace := by
    rcases htr with ⟨htr, -⟩ | ⟨enc, seq, payload, bytes, hrefusal, htr⟩
    · rw [htr, h.trace, tries_cons, h.packet]
      exact Nat.zero_add _
    · rw [(h.answer htr).1, hrefusal]
      exact Nat.zero_add _
  refine ⟨⟨?_, fun hawaits => ?_, fun _ => ?_, ?_, fun hthree => ?_⟩, fun hthree => ?_⟩
  · rcases htr with ⟨-, herr⟩ | ⟨enc, seq, payload, bytes, -, htr⟩
    · rw [SshConn.live, herr, hopen']
      rintro (hl | hl) <;> cases hl
    · exact fun _ => (h.answer htr).2
  · obtain ⟨hfails, hauth⟩ := hst hawaits
    rw [hfails, hauth, htries]
    exact ⟨h.fails, h.authenticated, hopen'⟩
  all_goals omega

/-- What a request leaves behind. -/
theorem handleUserauthRequest_budget (env : SshEnv) {s₀ : Ssh} {e : SshEvent}
    (h : Asked e s₀.c.trace s.c) (hob : s.g.ob = s₀.g.ob)
    (htry : e.isTry = (requestMethod pl.bytes).any (· ≠ ascii "none")) :
    s₀.Budgeted (handleUserauthRequest env s pl) e := by
  have hfollows := handleUserauthRequest_follows env s pl
  generalize hv : userauthVerdict env s.c.sessionId pl = v at hfollows
  cases hfollows with
  | malformed s₁ hl why hs' =>
      have hasked := h.looks hl
      rw [hs', Ssh.fail, if_pos (by rw [hasked.state]; decide)]
      exact hasked.uncounted (.inl ⟨rfl, rfl⟩) rfl fun h => Bool.noConfusion h
  | probed s₁ hl algo blob hs' =>
      have hsends := Sends.sendPacket env s₁ ([MSG_USERAUTH_PK_OK] ++ putStr algo ++ putStr blob)
      have hopen := congrArg SshConn.chanOpen hsends.conn
      have hauth := congrArg SshConn.authenticated hsends.conn
      rw [hs']
      refine (h.looks hl).uncounted ?_ hopen fun _ => ⟨hsends.authFails, hauth⟩
      rcases sendPacket_framed env s₁ ([MSG_USERAUTH_PK_OK] ++ putStr algo ++ putStr blob) with
        herr | ⟨enc, seq, bytes, htr⟩
      · exact .inl herr
      · exact .inr ⟨enc, seq, _, bytes, rfl, htr⟩
  | refused s₁ hl counted hs' =>
      rw [hs']
      refine authReject_budget env (h.looks hl) (hl.shared ▸ hob) ?_
      rw [htry]
      exact userauthVerdict_refused hv
  | granted s₁ hl hs' =>
      obtain ⟨enc, seq, bytes, htr⟩ :=
        @sendPacket_trace env s₁ [MSG_USERAUTH_SUCCESS] (by decide)
      have hsends := Sends.sendPacket env s₁ [MSG_USERAUTH_SUCCESS]
      have hopen := congrArg SshConn.chanOpen hsends.conn
      rw [hs']
      exact (h.looks hl).uncounted (.inr ⟨enc, seq, _, bytes, rfl, htr⟩) hopen fun h =>
        Bool.noConfusion h

/-! ## Runs -/

/-- A packet before the login leaves the account alone. -/
theorem Handled.awaits (h : Handled env pl s s') (hst : s'.c.state.awaits = true) :
    s.c.state.awaits = true ∧ s'.c.authenticated = s.c.authenticated ∧
      s'.c.chanOpen = s.c.chanOpen := by
  have hcore : s'.c.core = s.c.core → s'.c.authenticated = s.c.authenticated := by
    intro hc
    simp only [SshConn.core, Prod.mk.injEq] at hc
    tauto
  have hsettles : s.Settles s' → s.c.state.awaits = true := by
    rintro (hsame | hend | hend)
    · rw [← hsame]
      exact hst
    all_goals
      rw [hend] at hst
      cases hst
  cases h with
  | tame h => exact ⟨hsettles h.settles, hcore h.core, h.chanOpen⟩
  | kexinit hst₀ h => exact ⟨by rw [hst₀]; rfl, hcore h.core, h.chanOpen⟩
  | ecdh hst₀ h => exact ⟨by rw [hst₀]; rfl, hcore h.core, h.chanOpen⟩
  | newkeys hst₀ h =>
      rw [h]
      exact ⟨by rw [hst₀]; rfl, rfl, rfl⟩
  | service hst₀ h => exact ⟨by rw [hst₀]; rfl, hcore h.core, h.chanOpen⟩
  | granted hst₀ h =>
      obtain ⟨s₁, -, hc⟩ := h
      rw [hc] at hst
      cases hst
  | session hst₀ h =>
      have hawaits := hsettles h.settles
      rw [hst₀] at hawaits
      cases hawaits

/-- What a packet leaves behind. -/
theorem BudgetInv.packet (h : BudgetInv s.c) (hlive : s.c.live = true) (ib wire : List UInt8) :
    s.Budgeted (handlePacket env (s.handing ib wire pl) pl) (s.packetEvent wire pl.bytes) := by
  have htr : (s.handing ib wire pl).c.trace = s.packetEvent wire pl.bytes :: s.c.trace := rfl
  have hst₀ : (s.handing ib wire pl).c.state = s.c.state := rfl
  by_cases hreq : s.c.state = .auth ∧ pl.msg = MSG_USERAUTH_REQUEST
  · obtain ⟨hst, hmsg⟩ := hreq
    obtain ⟨hfails, hauth, hopen⟩ := h.counted (by rw [hst]; rfl)
    have htry : (s.packetEvent wire pl.bytes).isTry =
        (requestMethod pl.bytes).any (· ≠ ascii "none") := by
      rw [Ssh.packetEvent, hst, SshEvent.isTry, pl.headD_bytes, hmsg]
      rfl
    have hasked : Asked (s.packetEvent wire pl.bytes) s.c.trace (s.handing ib wire pl).c :=
      ⟨hst, htr, rfl, hfails, h.left hlive, hauth, hopen⟩
    unfold handlePacket
    dsimp only
    rw [hmsg, if_neg (by decide), if_neg (by decide), if_neg (by decide)]
    generalize hs₁ : (if pl.len ≠ 0 then (s.handing ib wire pl).read pl 0 1
      else s.handing ib wire pl) = s₁
    have hlooks : (s.handing ib wire pl).Looks s₁ := by
      rw [← hs₁]
      split
      · exact .of_eq rfl rfl
      · exact .refl _
    have hasked' := hasked.looks hlooks
    rw [handleByState, hasked'.state]
    exact handleUserauthRequest_budget env hasked' (congrArg SshShared.ob hlooks.shared) htry
  · have hquiet : (s.packetEvent wire pl.bytes).isTry = false := by
      rw [Ssh.packetEvent]
      generalize s.c.state = st at hreq
      cases st with
      | auth =>
          rw [SshEvent.isTry, pl.headD_bytes, decide_eq_false fun hmsg => hreq ⟨rfl, hmsg⟩]
          rfl
      | _ => rfl
    have htries : tries (s.handing ib wire pl).c.trace = tries s.c.trace := by
      rw [htr, tries_cons]
      exact Nat.zero_add _
    have hnoted : BudgetInv (s.handing ib wire pl).c := by
      refine ⟨fun _ => ?_, ?_, ?_, ?_, ?_⟩
      · rw [htr]
        exact hquiet
      · rw [htries]
        exact h.counted
      · rw [htries]
        exact h.left
      · rw [htries]
        exact h.bound
      · rw [htries]
        exact h.spent
    have hhandled := handlePacket_handled env (s.handing ib wire pl) pl
    obtain ⟨hinv, htries⟩ := hnoted.uncounted (.inl hlive) hhandled.logs fun hst => by
      obtain ⟨hawaits, hauth, hopen⟩ := hhandled.awaits hst
      refine ⟨hawaits, handlePacket_authFails env ?_ ?_, hauth, hopen⟩
      · intro hsession
        rw [hsession] at hawaits
        cases hawaits
      · exact fun hst hmsg => hreq ⟨hst, hmsg⟩
    refine ⟨hinv, fun hthree => ?_⟩
    have hleft := hnoted.left hlive
    omega

theorem BudgetInv.decodes (h : BudgetInv s.c) (hd : s.Decodes s') : BudgetInv s'.c := by
  have htr : s'.c.trace = s.c.trace := by rw [hd.conn]
  have hfails : s'.c.authFails = s.c.authFails := by rw [hd.conn]
  have hauth : s'.c.authenticated = s.c.authenticated := by rw [hd.conn]
  have hopen : s'.c.chanOpen = s.c.chanOpen := by rw [hd.conn]
  have hlive : s'.c.live = true → s.c.live = true := by
    rw [SshConn.live, SshConn.live]
    rcases hd.moves with hst | hst | ⟨hst, hst'⟩
    · rw [hst]
      exact id
    · rw [hst]
      exact fun h => absurd h (by decide)
    · rw [hst]
      exact fun _ => rfl
  have hawaits : s'.c.state.awaits = true → s.c.state.awaits = true := by
    rcases hd.moves with hst | hst | ⟨hst, hst'⟩
    · rw [hst]
      exact id
    · rw [hst]
      exact fun h => absurd h (by decide)
    · rw [hst]
      exact fun _ => rfl
  refine ⟨fun hl => ?_, fun hst => ?_, fun hl => ?_, ?_, ?_⟩
  · rw [htr]
    exact h.calm (hl.imp hlive (hopen ▸ ·))
  · rw [htr, hfails, hauth, hopen]
    exact h.counted (hawaits hst)
  · rw [htr]
    exact h.left (hlive hl)
  · rw [htr]
    exact h.bound
  · rw [htr, hauth, hopen]
    exact h.spent

/-- Without a channel the other calls do nothing to a connection. -/
theorem SshOp.run_unopened {op : SshOp} (hop : op.isInput = false) (hopen : s.c.chanOpen = false)
    (h : op.run env s = some s') : s'.c = s.c := by
  cases op with
  | input => cases hop
  | putc b =>
      cases h
      unfold sshChannelPutc
      repeat' split
      all_goals rfl
  | flush =>
      cases h
      rcases sshChannelFlush_cases env s with hc | ⟨hopen', -⟩
      · exact hc
      · rw [hopen] at hopen'
        cases hopen'
  | emit plain outmax =>
      cases h
      rcases sshChannelEmit_cases env s plain outmax with hc | ⟨hopen', -⟩
      · rw [hc]
      · rw [hopen] at hopen'
        cases hopen'
  | close =>
      cases h
      rw [sshChannelClose, hopen]
      rfl
  | _ =>
      cases h
      rfl

theorem BudgetInv.call (h : BudgetInv s.c) {op : SshOp} (hop : op.isInput = false)
    (hrun : op.run env s = some s') : BudgetInv s'.c := by
  cases hopen : s.c.chanOpen with
  | false =>
      rw [SshOp.run_unopened hop hopen hrun]
      exact h
  | true =>
      have htame := SshOp.run_tame hop hrun
      refine (h.uncounted (.inr hopen) htame.works.logs fun hst => ?_).1
      have hawaits : s.c.state.awaits = true := by
        rcases htame.settles with hsame | hend | hend
        · rw [← hsame]
          exact hst
        all_goals
          rw [hend] at hst
          cases hst
      have hclosed := (h.counted hawaits).2.2
      rw [hopen] at hclosed
      cases hclosed

theorem sshReset_budget (env : SshEnv) (g : SshShared) : BudgetInv (sshReset env g).c := by
  obtain ⟨s₀, iS, hc, -, hsends⟩ := sshReset_sends env g
  have hfresh : BudgetInv s₀.c := by
    rw [hc]
    exact ⟨fun _ => rfl, fun _ => ⟨rfl, rfl, rfl⟩, fun _ => (by decide : 0 < SSH_MAX_AUTH_TRIES),
      Nat.zero_le _, nofun⟩
  have hst : s₀.c.state = .version := by rw [hc]; rfl
  have hlogs : s₀.Logs SshEvent.inner (sshReset env g) := by
    obtain ⟨es, htr, hes⟩ := hsends.logs
    refine ⟨es, htr, fun e he => ?_⟩
    obtain ⟨seq, payload, bytes, rfl⟩ := hes e he
    rfl
  have hauth := congrArg SshConn.authenticated hsends.conn
  have hopen := congrArg SshConn.chanOpen hsends.conn
  refine (hfresh.uncounted (.inl ?_) hlogs fun _ => ⟨?_, hsends.authFails, hauth, hopen⟩).1
  · rw [SshConn.live, hst]
    rfl
  · rw [hst]
    rfl

theorem BudgetInv.run (h : BudgetInv s.c) (ops : List SshOp) (hrun : sshRun env ops s = some s') :
    BudgetInv s'.c := by
  refine RunMeets.keeps (P := fun s => BudgetInv s.c) ?_ ?_ ?_ ops h (RunMeets.live ops s) hrun
  · exact fun s s' h hd => h.decodes hd
  · exact fun s ib wire pl h hlive => (h.packet hlive ib wire).1
  · exact fun op s s' h hop _ hrun => h.call hop hrun

/-- A turn that makes the third refusal. -/
theorem BudgetInv.turn (h : BudgetInv s.c) (hlive : s.c.live = true) (beyond : Nat → UInt8)
    (hthree : tries (inputStep env beyond s).2.c.trace = SSH_MAX_AUTH_TRIES) :
    ∃ wire pl, pl ∈ handed env beyond s ∧
      s.Spends (inputStep env beyond s).2 (s.packetEvent wire pl.bytes) := by
  rcases inputStep_cases env beyond s with hd | ⟨ib, wire, pl, need, hpl, heq⟩
  · have htr : (inputStep env beyond s).2.c.trace = s.c.trace := by rw [hd.conn]
    rw [htr] at hthree
    exact absurd (h.left hlive) (by omega)
  · have hbudget := (@BudgetInv.packet env s pl h hlive ib wire).2
    rw [heq] at hthree ⊢
    obtain ⟨hst, hanswer⟩ := hbudget hthree
    exact ⟨wire, pl, hpl, hst, hanswer⟩

/-- A connection that is over. -/
structure Over (trace : List SshEvent) (c : SshConn) : Prop where
  live : c.live = false
  trace : c.trace = trace
  authenticated : c.authenticated = false
  chanOpen : c.chanOpen = false

/-- It stays as it is, whatever is called. -/
theorem Over.run {tr : List SshEvent} (h : Over tr s.c) (ops : List SshOp)
    (hrun : sshRun env ops s = some s') : Over tr s'.c := by
  refine RunMeets.keeps (P := fun s => Over tr s.c) ?_ ?_ ?_ ops h (RunMeets.live ops s) hrun
  · intro s s' h hd
    have htr : s'.c.trace = s.c.trace := by rw [hd.conn]
    have hauth : s'.c.authenticated = s.c.authenticated := by rw [hd.conn]
    have hopen : s'.c.chanOpen = s.c.chanOpen := by rw [hd.conn]
    refine ⟨?_, htr.trans h.trace, hauth.trans h.authenticated, hopen.trans h.chanOpen⟩
    have hlive := h.live
    rw [SshConn.live] at hlive ⊢
    rcases hd.moves with hst | hst | ⟨hst, -⟩
    · rw [hst]
      exact hlive
    · rw [hst]
      rfl
    · rw [hst] at hlive
      cases hlive
  · intro s ib wire pl h hlive
    rw [h.live] at hlive
    cases hlive
  · intro op s s' h hop _ hrun
    rw [SshOp.run_unopened hop h.chanOpen hrun]
    exact h

theorem SshReach.budget (h : SshReach env s) : BudgetInv s.c := by
  obtain ⟨g, ops, hrun⟩ := h
  exact (sshReset_budget env g).run ops hrun

/-- In every run at most three attempts are refused.  The turn of `ssh_input` that refuses the
third closes the connection with a `DISCONNECT`, queued if there is room.  From then on no packet
is handled and nothing is granted. -/
theorem attempts_bounded {ops : List SshOp} (hrun : sshRun env ops (sshReset env g) = some s) :
    tries s.c.trace ≤ SSH_MAX_AUTH_TRIES ∧
    (∀ beyond, s.c.live = true →
      tries (inputStep env beyond s).2.c.trace = SSH_MAX_AUTH_TRIES →
      ∃ wire pl, pl ∈ handed env beyond s ∧
        s.Spends (inputStep env beyond s).2 (s.packetEvent wire pl.bytes)) ∧
    (tries s.c.trace = SSH_MAX_AUTH_TRIES → ∀ ops s', sshRun env ops s = some s' →
      Over s.c.trace s'.c) := by
  have hinv := (sshReset_budget env g).run ops hrun
  refine ⟨hinv.bound, fun beyond hlive => hinv.turn hlive beyond, fun hthree ops s' hrun' => ?_⟩
  have hdead : s.c.live = false := by
    by_contra hlive
    exact absurd (hinv.left (Bool.not_eq_false _ ▸ hlive)) (by omega)
  obtain ⟨hauth, hopen⟩ := hinv.spent hthree
  have hover : Over s.c.trace s.c := ⟨hdead, rfl, hauth, hopen⟩
  exact hover.run ops hrun'

end

/-! ## Two clients -/

/-- A request of the smallest kind. -/
def attempt (method : String) : List UInt8 :=
  [MSG_USERAUTH_REQUEST] ++ putNl "" ++ putNl "" ++ putNl method

/-- A client that asks for these methods in one chunk. -/
def attemptOps (methods : List String) (fuel : Nat) : List SshOp :=
  feed [greeting sampleKex, sealedFrame 3 ([MSG_SERVICE_REQUEST] ++ putNl "ssh-userauth")] ++
    [.input (methods.zipIdx.flatMap fun m => sealedFrame (4 + BitVec.ofNat 32 m.2) (attempt m.1))
      (fun _ _ => 0) fuel]

/-- Of four requests in one chunk the third ends the connection. -/
theorem attempts_bounded_pipelined : ∃ s,
    sshRun sampleEnv (attemptOps ["x", "y", "z", "none"] 8) (sshReset sampleEnv SshShared.zero) =
      some s ∧ tries s.c.trace = 3 ∧
    ∀ ops s', sshRun sampleEnv ops s = some s' → Over s.c.trace s'.c := by
  have hrun : (sshRun sampleEnv (attemptOps ["x", "y", "z", "none"] 8)
      (sshReset sampleEnv SshShared.zero)).map (fun s => tries s.c.trace) = some 3 := by
    decide +kernel
  obtain ⟨s, hs, hthree⟩ := Option.map_eq_some_iff.mp hrun
  exact ⟨s, hs, hthree, (attempts_bounded hs).2.2 hthree⟩

/-! ## A client that does not read -/

section

variable {env : SshEnv} {s s' : Ssh} {pl : Payload}

/-- With a password set, a method the box does not know is refused. -/
theorem userauthVerdict_unknown {sid method : List UInt8} (hset : env.havePassword = true)
    (hm : requestMethod pl.bytes = some method) (hkey : method ≠ ascii "publickey")
    (hword : method ≠ ascii "password") :
    userauthVerdict env sid pl = .refused (method ≠ ascii "none") := by
  rcases userauthVerdict_method env sid pl with ⟨hnone, -⟩ | ⟨o, user, service, name, hname, hv⟩
  · rw [hnone] at hm
    cases hm
  · rw [hname] at hm
    cases hm
    rw [hv, methodVerdict, hset, if_neg (by simp), if_neg hkey, if_neg (by simpa using hword)]

/-- The client has its keys and is not logged in. -/
structure Ssh.AtLogin (s : Ssh) : Prop where
  state : s.c.state = .auth
  recv : s.c.recvEncrypted = true
  send : s.c.sendEncrypted = true

/-- What a turn hands to `auth_reject`: the request was read and noted, and nothing else changed. -/
structure Ssh.Judged (s s₁ : Ssh) (e : SshEvent) (need : Nat) : Prop where
  conn : s₁.c = { s.c with
    ib := s₁.c.ib, authUser := s₁.c.authUser, trace := e :: s.c.trace }
  shared : s₁.g = s.g
  rest : s₁.c.ib.drop need = []

/-- A request that is refused: the handler reads it, and then answers with a failure. -/
theorem handlePacket_refused (hstate : s.c.state = .auth) (hreq : pl.msg = MSG_USERAUTH_REQUEST)
    (hset : env.havePassword = true) {method : List UInt8}
    (hm : requestMethod pl.bytes = some method) (hkey : method ≠ ascii "publickey")
    (hword : method ≠ ascii "password") :
    ∃ s₁, s.Looks s₁ ∧ handlePacket env s pl = authReject env s₁ (method ≠ ascii "none") := by
  unfold handlePacket
  dsimp only
  rw [hreq, if_neg (by decide), if_neg (by decide), if_neg (by decide)]
  generalize hs₀ : (if pl.len ≠ 0 then s.read pl 0 1 else s) = s₀
  have hlooks : s.Looks s₀ := by
    rw [← hs₀]
    split
    · exact .of_eq rfl rfl
    · exact .refl _
  have hauth : s₀.c.state = .auth := by
    rw [hlooks.conn]
    exact hstate
  rw [handleByState, hauth]
  dsimp only
  rw [if_pos rfl]
  have hfollows := handleUserauthRequest_follows env s₀ pl
  rw [userauthVerdict_unknown hset hm hkey hword] at hfollows
  generalize handleUserauthRequest env s₀ pl = s₂ at hfollows
  generalize hcounted : decide (method ≠ ascii "none") = counted at hfollows
  cases hfollows with
  | refused s₁ hl counted hs₂ => exact ⟨s₁, hlooks.trans hl, hs₂⟩

/-- A turn that refuses a request. -/
theorem inputStep_refused (h : s.AtLogin) (hset : env.havePassword = true) {m : Msg}
    (hok : m.Ok true)
    (hib : s.c.ib = sealFrame env.crypto s.c.ekC2s s.c.recvSeq m.payload m.pad)
    (hmsg : m.payload.headD 0 = MSG_USERAUTH_REQUEST) {method : List UInt8}
    (hm : requestMethod m.payload = some method) (hkey : method ≠ ascii "publickey")
    (hword : method ≠ ascii "password") (beyond : Nat → UInt8) :
    ∃ s₁ need wire, s.Judged s₁ (s.packetEvent wire m.payload) need ∧
      inputStep env beyond s =
        (.progressed, (authReject env s₁ (method ≠ ascii "none")).finish need) := by
  have hframe : s.c.ib =
      m.frame env.crypto s.c.ekC2s s.c.recvEncrypted s.c.recvSeq ++ [] := by
    rw [List.append_nil, Msg.frame, if_pos h.recv]
    exact hib
  obtain ⟨c', pl, hd, hpl, hc', hrest⟩ : ∃ (c' : SshConn) (pl : Payload),
    decode env beyond s.c = _ ∧ _ := decode_frame (h.recv ▸ hok) hframe
  generalize m.frame env.crypto s.c.ekC2s s.c.recvEncrypted s.c.recvSeq = wire at hd hrest
  have hreq : pl.msg = MSG_USERAUTH_REQUEST := by rw [← pl.headD_bytes, hpl, hmsg]
  have hturn : inputStep env beyond s =
      (.progressed, (handlePacket env (s.handing c'.ib wire pl) pl).finish wire.length) := by
    rw [inputStep, if_neg (by rw [h.state]; decide), ← tryPacketWith_handlePacket, tryPacketWith,
      hd, Decoded.run, hc']
    rfl
  obtain ⟨s₁, hlooks, hs₁⟩ := handlePacket_refused (s := s.handing c'.ib wire pl) h.state hreq
    hset (hpl ▸ hm) hkey hword
  refine ⟨s₁, wire.length, wire, ⟨?_, hlooks.shared, ?_⟩, ?_⟩
  · rw [hlooks.conn, ← hpl]
    rfl
  · rw [hlooks.conn]
    exact hrest
  · rw [hturn, hs₁]

/-- Without room nothing is queued. -/
theorem sendPacket_full (env : SshEnv) (hsealed : s.c.sendEncrypted = true) {payload : List UInt8}
    (hlen : payload.length ≤ SSH_ENC_MAX_PLEN) (hob : s.g.ob.length ≤ SSH_OB_SZ)
    (hfull : SSH_OB_SZ < s.g.ob.length + wireLen true payload.length) :
    (s.sendPacket env payload).g.ob = s.g.ob := by
  have hsz : SSH_OB_SZ = 2048 := rfl
  have hmax : SSH_ENC_MAX_PLEN = 247 := rfl
  have hsmall : wireLen true payload.length ≤ 300 := by
    have hpad := padLen_spec (1 + payload.length)
    rw [wireLen, if_pos rfl]
    omega
  have hover : env.u (s.g.ob.length + wireLen true payload.length) > SSH_OB_SZ := by
    rw [env.u_small (by omega)]
    exact hfull
  rw [sendPacket, if_pos hsealed, sendEnc, if_neg (Nat.not_lt.mpr hlen)]
  dsimp only
  rw [obAppend, length_aeadSeal]
  exact (congrArg (fun s : Ssh => s.g.ob) (if_pos hover)).trans rfl

/-- A client that sends a request: it is stored, and the next turn refuses it. -/
theorem Ssh.AtLogin.asks (h : s.AtLogin) (hib : s.c.ib = []) (hset : env.havePassword = true)
    {m : Msg} (hok : m.Ok true) (hmsg : m.payload.headD 0 = MSG_USERAUTH_REQUEST)
    {method : List UInt8} (hm : requestMethod m.payload = some method)
    (hkey : method ≠ ascii "publickey") (hword : method ≠ ascii "password")
    (beyond : Nat → UInt8) : ∃ data t s₁ need wire,
      t.AtLogin ∧ t.c = { s.c with ib := t.c.ib } ∧ t.g = s.g ∧
      (∀ beyond fuel, (SshOp.input data beyond fuel).run env s =
        (inputLoop env beyond fuel 0 t).state?) ∧
      t.Judged s₁ (t.packetEvent wire m.payload) need ∧
      inputStep env beyond t =
        (.progressed, (authReject env s₁ (method ≠ ascii "none")).finish need) := by
  generalize hdata : sealFrame env.crypto s.c.ekC2s s.c.recvSeq m.payload m.pad = data
  have hroom : s.c.ib.length + data.length ≤ SSH_IB_SZ := by
    have hsz : SSH_IB_SZ = 2048 := rfl
    have hmax : m.payload.length ≤ 247 := hok.sealed rfl
    have hpad := hok.pad_lt
    rw [hib, List.length_nil, ← hdata, length_sealFrame]
    omega
  generalize ht : ({ s with c := { s.c with ib := s.c.ib ++ data } } : Ssh) = t
  have hlogin : t.AtLogin := by
    rw [← ht]
    exact ⟨h.state, h.recv, h.send⟩
  obtain ⟨s₁, need, wire, hj, hstep⟩ := inputStep_refused hlogin hset hok (by
    rw [← ht]
    dsimp only
    rw [hib, hdata]
    rfl) hmsg hm hkey hword beyond
  refine ⟨data, t, s₁, need, wire, hlogin, by rw [← ht], by rw [← ht], fun beyond fuel => ?_, hj,
    hstep⟩
  have herr : s.c.state ≠ .error := by
    rw [h.state]
    decide
  rw [SshOp.run, sshInput_enters herr hroom, ht]

/-- A refusal that does not count. -/
theorem authReject_free (env : SshEnv) (h : s.c.authFails < SSH_MAX_AUTH_TRIES) :
    authReject env s false = sendUserauthFailure env s := by
  rw [authReject, if_neg Bool.false_ne_true]
  exact if_neg (Nat.not_le.mpr h)

/-- The last refusal: the `DISCONNECT` is framed, but not queued if there is no room. -/
theorem authReject_last (env : SshEnv) (hsealed : s.c.sendEncrypted = true)
    (h : s.c.authFails + 1 = SSH_MAX_AUTH_TRIES) (hob : s.g.ob.length ≤ SSH_OB_SZ)
    (hfull : SSH_OB_SZ < s.g.ob.length + 76) :
    (authReject env s true).g.ob = s.g.ob ∧ ∃ enc seq payload bytes,
      payload.headD 0 = MSG_DISCONNECT ∧
      (authReject env s true).c.trace = .frame enc seq payload bytes :: s.c.trace := by
  have hmax : SSH_MAX_AUTH_TRIES = 3 := rfl
  generalize hs₁ : ({ s with c := { s.c with authFails := env.u (s.c.authFails + 1) } } : Ssh) = s₁
  have hlast : authReject env s true =
      sendDisconnect env s₁ DISCONNECT_NO_MORE_AUTH "too many authentication failures" := by
    rw [authReject, if_pos rfl, hs₁]
    refine if_pos ?_
    rw [← hs₁]
    dsimp only
    rw [env.u_small (by omega), h]
  rw [hlast, sendDisconnect]
  generalize hpl : [MSG_DISCONNECT] ++ be32 DISCONNECT_NO_MORE_AUTH ++
    putNl "too many authentication failures" ++ putNl "" = payload
  have hlen : wireLen true payload.length = 76 ∧ payload.length ≤ SSH_ENC_MAX_PLEN := by
    rw [← hpl]
    decide
  have hdisconnect : payload.headD 0 = MSG_DISCONNECT := by
    rw [← hpl]
    rfl
  obtain ⟨enc, seq, bytes, htr⟩ := sendPacket_trace env s₁ hlen.2
  have hg : s₁.g = s.g := by rw [← hs₁]
  have hc : s₁.c.sendEncrypted = true ∧ s₁.c.trace = s.c.trace := by
    rw [← hs₁]
    exact ⟨hsealed, rfl⟩
  refine ⟨?_, enc, seq, payload, bytes, hdisconnect, htr.trans (by rw [hc.2])⟩
  rw [← hg] at hob hfull ⊢
  exact sendPacket_full env hc.1 hlen.2 hob (by rw [hlen.1]; exact hfull)

/-- Without fuel there is no turn. -/
theorem inputLoop_zero (beyond : Nat → Nat → UInt8) (t : Nat) (s : Ssh) :
    (inputLoop env beyond 0 t s).state? = some s := by
  rw [inputLoop]
  split <;> rfl

/-- With fuel for one turn. -/
theorem inputLoop_one (hlive : s.c.live = true) {beyond : Nat → Nat → UInt8}
    (hstep : inputStep env (beyond 0) s = (.progressed, s')) :
    (inputLoop env beyond 1 0 s).state? = some s' := by
  rw [inputLoop, if_pos hlive, hstep]
  exact inputLoop_zero beyond _ s'

end

/-- A request of the smallest kind, as it is sealed. -/
def attemptMsg (method : String) : Msg :=
  ⟨attempt method, List.replicate (padLen (1 + (attempt method).length)) 0⟩

theorem attemptMsg_ok {method : String} (h : (attempt method).length ≤ SSH_ENC_MAX_PLEN) :
    (attemptMsg method).Ok true :=
  ⟨List.length_replicate, fun _ => h, nofun⟩

/-- A connection on which `k` requests with the method `none` were refused since `s₀`. -/
structure Asking (s₀ : Ssh) (k : Nat) (s : Ssh) : Prop extends s.AtLogin where
  reach : SshReach sampleEnv s
  ib : s.c.ib = []
  fails : s.c.authFails = s₀.c.authFails
  ob : s.g.ob.length = s₀.g.ob.length + k * 44

/-- They do not count, but their answers are queued. -/
theorem Asking.next {s₀ s : Ssh} {k : Nat} (h : Asking s₀ k s)
    (hfew : s₀.c.authFails < SSH_MAX_AUTH_TRIES)
    (hroom : s₀.g.ob.length + (k + 1) * 44 ≤ SSH_OB_SZ) : ∃ s', Asking s₀ (k + 1) s' := by
  obtain ⟨data, t, s₁, need, wire, ht, hc, hg, hin, hj, hstep⟩ := h.toAtLogin.asks h.ib
    (by decide : sampleEnv.havePassword) (attemptMsg_ok (by decide) : (attemptMsg "none").Ok true)
    rfl (by decide : _ = some (ascii "none")) (by decide) (by decide) (fun _ => 0)
  have hfails : s₁.c.authFails = s₀.c.authFails := by
    rw [hj.conn, hc]
    exact h.fails
  have hsend : s₁.c.sendEncrypted = true := by
    rw [hj.conn, hc]
    exact h.send
  have hstate : s₁.c.state = .auth := by
    rw [hj.conn, hc]
    exact h.state
  rw [decide_eq_false (by decide), authReject_free sampleEnv (hfails ▸ hfew)] at hstep
  have hanswer : sendUserauthFailure sampleEnv s₁ =
      s₁.sendPacket sampleEnv ([MSG_USERAUTH_FAILURE] ++ putNl "password" ++ [0]) := rfl
  have hwire : wireLen true ([MSG_USERAUTH_FAILURE] ++ putNl "password" ++ [0]).length = 44 := by
    decide
  have hq := sendPacket_queued sampleEnv s₁ ([MSG_USERAUTH_FAILURE] ++ putNl "password" ++ [0])
    (fun _ => by decide) (by
      rw [hsend, hwire, hj.shared, hg, h.ob]
      omega)
  rw [hsend, hwire] at hq
  rw [hanswer] at hstep
  generalize s₁.sendPacket sampleEnv _ = s₂ at hq hstep
  have hlive : t.c.live = true := by
    rw [SshConn.live, ht.state]
    rfl
  have hrun := (hin (fun _ _ => 0) 1).trans (inputLoop_one hlive hstep)
  refine ⟨s₂.finish need, ⟨?_, ?_, ?_⟩, h.reach.call hrun, ?_, ?_, ?_⟩
  · exact (congrArg SshConn.state hq.conn).trans hstate
  · exact (congrArg SshConn.recvEncrypted hq.conn).trans (by rw [hj.conn, hc]; exact h.recv)
  · exact (congrArg SshConn.sendEncrypted hq.conn).trans hsend
  · exact (congrArg (fun c => c.ib.drop need) hq.conn).trans hj.rest
  · exact (congrArg SshConn.authFails hq.conn).trans hfails
  · refine hq.ob.trans ?_
    rw [hj.shared, hg, h.ob]
    omega

theorem Asking.fill {s₀ : Ssh} (h : Asking s₀ 0 s₀) (hfew : s₀.c.authFails < SSH_MAX_AUTH_TRIES) :
    ∀ k, s₀.g.ob.length + k * 44 ≤ SSH_OB_SZ → ∃ s, Asking s₀ k s
  | 0, _ => ⟨s₀, h⟩
  | k + 1, hroom => by
      obtain ⟨s, hs⟩ := fill h hfew k (by omega)
      exact hs.next hfew hroom

/-- A client whose next wrong attempt is the last asks with `none` until `g_ob` is nearly full. -/
theorem asking_run : ∃ s₀ s, Asking s₀ 32 s ∧ s₀.c.authFails = 2 ∧ s₀.g.ob.length = 567 := by
  have hrun : (sshRun sampleEnv (attemptOps ["x", "y"] 2) (sshReset sampleEnv SshShared.zero)).map
      (fun s => s.c.state == .auth && s.c.recvEncrypted && s.c.sendEncrypted && s.c.ib == [] &&
        s.c.authFails == 2 && s.g.ob.length == 567) = some true := by
    decide +kernel
  obtain ⟨s₀, hs₀, hfacts⟩ := Option.map_eq_some_iff.mp hrun
  simp only [Bool.and_eq_true, beq_iff_eq] at hfacts
  obtain ⟨⟨⟨⟨⟨hstate, hrecv⟩, hsend⟩, hib⟩, hfails⟩, hob⟩ := hfacts
  have hfirst : Asking s₀ 0 s₀ := ⟨⟨hstate, hrecv, hsend⟩, ⟨_, _, hs₀⟩, hib, rfl, rfl⟩
  obtain ⟨s, hs⟩ := hfirst.fill (by rw [hfails]; decide) 32 (by rw [hob]; decide)
  exact ⟨s₀, s, hs, hfails, hob⟩

/-- A client that asks on without reading the answers: the `DISCONNECT` finds no room. -/
theorem disconnect_lost : ∃ s, SshReach sampleEnv s ∧ s.c.live = true ∧ tries s.c.trace = 2 ∧
    tries (inputStep sampleEnv (fun _ => 0) s).2.c.trace = 3 ∧
    (inputStep sampleEnv (fun _ => 0) s).2.g.ob = s.g.ob := by
  obtain ⟨s₀, s, h, hfails, hob⟩ := asking_run
  -- the wrong attempt is in the buffer, and the next turn of the loop reads it
  obtain ⟨data, t, s₁, need, wire, ht, hc, hg, hin, hj, hstep⟩ := h.toAtLogin.asks h.ib
    (by decide : sampleEnv.havePassword) (attemptMsg_ok (by decide) : (attemptMsg "z").Ok true) rfl
    (by decide : _ = some (ascii "z")) (by decide) (by decide) (fun _ => 0)
  have hreach := h.reach.call ((hin (fun _ _ => 0) 0).trans (inputLoop_zero _ 0 t))
  have hcounted := (hreach.budget.counted (by rw [ht.state]; rfl)).1
  have htwo : t.c.authFails = 2 := by
    rw [hc]
    exact h.fails.trans hfails
  rw [decide_eq_true (by decide)] at hstep
  have hob₁ : s₁.g.ob.length = 1975 := by
    rw [hj.shared, hg, h.ob, hob]
  obtain ⟨hfull, enc, seq, payload, bytes, hdisconnect, htr⟩ := @authReject_last s₁ sampleEnv
    (by rw [hj.conn]; exact ht.send) (by rw [hj.conn]; exact congrArg (· + 1) htwo)
    (by rw [hob₁]; decide) (by rw [hob₁]; decide)
  have htrace : s₁.c.trace = t.packetEvent wire (attemptMsg "z").payload :: t.c.trace := by
    rw [hj.conn]
  have htry : (t.packetEvent wire (attemptMsg "z").payload).isTry = true := by
    rw [Ssh.packetEvent, ht.state, SshEvent.isTry]
    decide
  generalize authReject sampleEnv s₁ true = s₂ at hstep hfull htr
  have hlog : (s₂.finish need).c.trace = s₂.c.trace := rfl
  have hqueue : (s₂.finish need).g = s₂.g := rfl
  refine ⟨t, hreach, by rw [SshConn.live, ht.state]; rfl, hcounted.symm.trans htwo, ?_, ?_⟩
  · rw [hstep, hlog, htr, htrace, tries_cons, tries_cons, ← hcounted, htwo, SshEvent.isRefusal,
      hdisconnect, List.head?_cons, Option.any_some, htry]
    rfl
  · rw [hstep, hqueue, hfull, hj.shared]

end Dossh
