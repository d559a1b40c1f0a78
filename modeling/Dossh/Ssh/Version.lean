import Dossh.Ssh.Delivery
import Dossh.Ssh.Invariant

/-!
# The exchange of versions

The client sends its identification line, possibly behind lines of other text.  `firstIdent`
finds it in the whole stream, while `try_version` scans what has arrived and starts again when
more comes.  Both find the same line, however the stream is cut.

The server keeps 255 bytes of the line.  It rejects a line of more than 301 bytes, counted up to
the newline, and what lies between is cut short, so the two sides hash different lines.
-/

namespace Dossh

open Ssh

/-! ## The line in a stream -/

/-- A line without a carriage return at its end. -/
def chomp (line : List UInt8) : List UInt8 :=
  if line.getLast? = some 0x0D then line.dropLast else line

/-- The first line that begins with `SSH-`, and what follows it, behind `line`, which is the part
of the current line that was read. -/
def firstIdentFrom (line : List UInt8) : List UInt8 → Option (List UInt8 × List UInt8)
  | [] => none
  | b :: rest =>
      if b = 0x0A then
        if line.take 4 = ascii "SSH-" then some (chomp line, rest) else firstIdentFrom [] rest
      else firstIdentFrom (line ++ [b]) rest

/-- The identification line of a stream, and what follows it. -/
def firstIdent (stream : List UInt8) : Option (List UInt8 × List UInt8) :=
  firstIdentFrom [] stream

/-- A line of more than 301 bytes comes before the end of the identification line, behind
`line`. -/
def overlongFrom (line : List UInt8) : List UInt8 → Bool
  | [] => false
  | b :: rest =>
      if b = 0x0A then line.take 4 ≠ ascii "SSH-" && overlongFrom [] rest
      else 301 ≤ line.length || overlongFrom (line ++ [b]) rest

/-- The identification line or one before it has more than 301 bytes up to its newline. -/
def Overlong (stream : List UInt8) : Prop := overlongFrom [] stream = true

/-- The bytes that a run hands to `ssh_input`. -/
def fedBytes (ops : List SshOp) : List UInt8 :=
  ops.flatMap fun op => match op with
    | .input data _ _ => data
    | _ => []

theorem fedBytes_cons (op : SshOp) (ops : List SshOp) :
    fedBytes (op :: ops) = fedBytes [op] ++ fedBytes ops := by
  simp [fedBytes]

theorem firstIdentFrom_line {rest : List UInt8} : ∀ {body : List UInt8} (line : List UInt8),
    0x0A ∉ body → firstIdentFrom line (body ++ 0x0A :: rest) =
      if (line ++ body).take 4 = ascii "SSH-" then some (chomp (line ++ body), rest)
      else firstIdent rest
  | [], line, _ => by
      rw [List.nil_append, firstIdentFrom, if_pos rfl, List.append_nil]
      rfl
  | b :: body, line, hbody => by
      rw [List.mem_cons, not_or] at hbody
      rw [List.cons_append, firstIdentFrom, if_neg fun h => hbody.1 h.symm,
        firstIdentFrom_line (line ++ [b]) hbody.2, List.append_assoc, List.singleton_append]

/-- A line of the stream is the identification line or is passed over. -/
theorem firstIdent_line {body : List UInt8} (rest : List UInt8) (hbody : 0x0A ∉ body) :
    firstIdent (body ++ 0x0A :: rest) =
      if body.take 4 = ascii "SSH-" then some (chomp body, rest) else firstIdent rest :=
  firstIdentFrom_line [] hbody

/-- What comes later does not change the line. -/
theorem firstIdentFrom_append {ident rest : List UInt8} (more : List UInt8) :
    ∀ {stream line : List UInt8}, firstIdentFrom line stream = some (ident, rest) →
      firstIdentFrom line (stream ++ more) = some (ident, rest ++ more)
  | [], _, h => by cases h
  | b :: stream, line, h => by
      rw [firstIdentFrom] at h
      rw [List.cons_append, firstIdentFrom]
      split at h
      next hb =>
        rw [if_pos hb]
        split at h
        next hssh =>
          cases h
          rw [if_pos hssh]
        next hssh =>
          rw [if_neg hssh]
          exact firstIdentFrom_append more h
      next hb =>
        rw [if_neg hb]
        exact firstIdentFrom_append more h

theorem firstIdent_append {stream ident rest : List UInt8} (more : List UInt8)
    (h : firstIdent stream = some (ident, rest)) :
    firstIdent (stream ++ more) = some (ident, rest ++ more) := firstIdentFrom_append more h

/-! ## Long lines -/

theorem overlongFrom_line {rest : List UInt8} : ∀ {body line : List UInt8}, 0x0A ∉ body →
    line.length ≤ 301 → overlongFrom line (body ++ 0x0A :: rest) =
      (301 < (line ++ body).length ||
        ((line ++ body).take 4 ≠ ascii "SSH-" && overlongFrom [] rest))
  | [], line, _, hline => by
      rw [List.nil_append, overlongFrom, if_pos rfl, List.append_nil,
        decide_eq_false (Nat.not_lt.mpr hline), Bool.false_or]
  | b :: body, line, hbody, hline => by
      rw [List.mem_cons, not_or] at hbody
      rw [List.cons_append, overlongFrom, if_neg fun h => hbody.1 h.symm]
      have hassoc : line ++ b :: body = line ++ [b] ++ body := by rw [List.append_assoc]; rfl
      rw [hassoc]
      by_cases hfull : 301 ≤ line.length
      · have hover : 301 < (line ++ [b] ++ body).length := by
          simp only [List.length_append, List.length_singleton]
          omega
        rw [decide_eq_true hfull, decide_eq_true hover, Bool.true_or, Bool.true_or]
      · have hnext : (line ++ [b]).length ≤ 301 := by
          rw [List.length_append, List.length_singleton]
          omega
        rw [decide_eq_false hfull, Bool.false_or, overlongFrom_line hbody.2 hnext]

/-- A line that is passed over. -/
theorem overlong_line {body : List UInt8} (rest : List UInt8) (hbody : 0x0A ∉ body)
    (hlen : body.length ≤ 301) :
    Overlong (body ++ 0x0A :: rest) ↔ body.take 4 ≠ ascii "SSH-" ∧ Overlong rest := by
  unfold Overlong
  rw [overlongFrom_line hbody (Nat.zero_le _), List.nil_append,
    decide_eq_false (Nat.not_lt.mpr hlen), Bool.false_or, Bool.and_eq_true, decide_eq_true_eq]

/-- What comes behind the identification line does not matter. -/
theorem overlongFrom_ident {ident rest : List UInt8} (more : List UInt8) :
    ∀ {stream line : List UInt8}, firstIdentFrom line stream = some (ident, rest) →
      overlongFrom line (stream ++ more) = overlongFrom line stream
  | [], _, h => by cases h
  | b :: stream, line, h => by
      rw [firstIdentFrom] at h
      rw [List.cons_append, overlongFrom, overlongFrom]
      split at h
      next hb =>
        rw [if_pos hb, if_pos hb]
        split at h
        next hssh => rw [decide_eq_false (not_not.mpr hssh), Bool.false_and, Bool.false_and]
        next => rw [overlongFrom_ident more h]
      next hb => rw [if_neg hb, if_neg hb, overlongFrom_ident more h]

/-- The scan gives up on a line that is too long. -/
theorem overlongFrom_tooLong (more : List UInt8) : ∀ {ib line : List UInt8},
    versionScan ib line.length = .tooLong → overlongFrom line (ib ++ more) = true
  | [], _, h => by cases h
  | b :: ib, line, h => by
      rw [versionScan] at h
      rw [List.cons_append, overlongFrom]
      split at h
      · cases h
      next hb =>
        rw [if_neg hb, Bool.or_eq_true, decide_eq_true_eq]
        split at h
        next hlong => exact .inl hlong
        next =>
          refine .inr (overlongFrom_tooLong more ?_)
          rw [List.length_append, List.length_singleton]
          exact h

/-- A line that the scan finds is not too long. -/
theorem versionScan_short : ∀ {ib : List UInt8} {i k : Nat}, i ≤ 301 → versionScan ib i = .line k →
    k ≤ 301
  | [], _, _, _, h => by cases h
  | b :: ib, i, k, hi, h => by
      rw [versionScan] at h
      split at h
      · cases h
        exact hi
      · split at h
        · cases h
        · exact versionScan_short (by omega) h

/-! ## One line -/

/-- The line that `try_version` looks at. -/
theorem versionLine_eq (line rest : List UInt8) :
    versionLine (line ++ 0x0A :: rest) line.length = chomp line := by
  have htake : (line ++ 0x0A :: rest).take line.length = line := List.take_left
  unfold versionLine chomp
  rcases List.eq_nil_or_concat line with rfl | ⟨init, b, hline⟩
  · rfl
  · rw [List.concat_eq_append] at hline
    subst hline
    have hlen : (init ++ [b]).length - 1 = init.length := by simp
    have hget : ((init ++ [b]) ++ 0x0A :: rest).getD init.length 0 = b := by simp
    have hinit : ((init ++ [b]) ++ 0x0A :: rest).take init.length = init := by simp
    rw [hlen, hget, hinit, htake, List.getLast?_concat, List.dropLast_concat]
    by_cases hb : b = 0x0D
    · rw [if_pos ⟨by simp, hb⟩, if_pos (by rw [hb])]
    · rw [if_neg fun h => hb h.2, if_neg fun h => hb (Option.some.inj h)]

/-- The end of the line does not decide how it begins. -/
theorem chomp_begins (line : List UInt8) :
    ((chomp line).length ≥ 4 ∧ (chomp line).take 4 = ascii "SSH-") ↔
      line.take 4 = ascii "SSH-" := by
  have hfour : (ascii "SSH-").length = 4 := rfl
  have hlast : (ascii "SSH-").getLast? = some 0x2D := rfl
  generalize ascii "SSH-" = ssh at hfour hlast
  have hlong : ∀ l : List UInt8, l.take 4 = ssh → 4 ≤ l.length := by
    intro l h
    have hl := congrArg List.length h
    rw [List.length_take] at hl
    omega
  unfold chomp
  split
  next hcr =>
    obtain ⟨init, rfl⟩ := List.getLast?_eq_some_iff.mp hcr
    rw [List.dropLast_concat]
    constructor
    · rintro ⟨hlen, htake⟩
      rw [List.take_append_of_le_length hlen, htake]
    · intro htake
      by_cases hlen : 4 ≤ init.length
      · exact ⟨hlen, by rw [← htake, List.take_append_of_le_length hlen]⟩
      · -- the line would be four bytes and end in a carriage return
        rw [List.take_of_length_le (by rw [List.length_append, List.length_singleton]; omega)] at htake
        rw [htake, hlast] at hcr
        cases hcr
  next => exact ⟨fun h => h.2, fun h => ⟨hlong line h, h⟩⟩

/-! ## The invariant -/

/-- What comes next decides the same for both. -/
structure SameLines (stream ib : List UInt8) : Prop where
  ident : ∀ more, firstIdent (stream ++ more) = firstIdent (ib ++ more)
  overlong : ∀ more, Overlong (stream ++ more) ↔ Overlong (ib ++ more)

/-- As long as the server waits, what it has read does not matter.  Then it has the first bytes
of the line. -/
structure IdentInv (stream : List UInt8) (c : SshConn) : Prop where
  waiting : c.state = .version → SameLines stream c.ib
  taken : c.state ≠ .version → c.state ≠ .error →
    ∃ ident rest, firstIdent stream = some (ident, rest) ∧ ¬ Overlong stream ∧
      c.cliVer = ident.take 255

section

variable {env : SshEnv} {W : Prop} {s s' : Ssh} {g : SshShared} {stream : List UInt8}

namespace SameLines

theorem refl (stream : List UInt8) : SameLines stream stream := ⟨fun _ => rfl, fun _ => .rfl⟩

/-- More bytes of the stream. -/
theorem fill {ib : List UInt8} (h : SameLines stream ib) (data : List UInt8) :
    SameLines (stream ++ data) (ib ++ data) := by
  constructor
  · intro more
    rw [List.append_assoc, h.ident, List.append_assoc]
  · intro more
    rw [List.append_assoc, h.overlong, List.append_assoc]

/-- Another line is passed over. -/
theorem pass {line rest : List UInt8} (h : SameLines stream (line ++ 0x0A :: rest))
    (hline : 0x0A ∉ line) (hlen : line.length ≤ 301) (hssh : line.take 4 ≠ ascii "SSH-") :
    SameLines stream rest := by
  constructor
  · intro more
    rw [h.ident, List.append_assoc, List.cons_append, firstIdent_line _ hline, if_neg hssh]
  · intro more
    rw [h.overlong, List.append_assoc, List.cons_append, overlong_line _ hline hlen]
    exact and_iff_right hssh

end SameLines

theorem IdentInv.failed {c : SshConn} (h : c.state = .error) : IdentInv stream c := by
  refine ⟨fun hst => ?_, fun _ hne => absurd h hne⟩
  rw [h] at hst
  cases hst

theorem Ssh.fail_state (s : Ssh) (why : String) : (s.fail why).c.state = .error := by
  unfold Ssh.fail
  split
  · rfl
  next hsame => exact Decidable.not_not.mp hsame

/-- What `try_version` makes of the buffer. -/
theorem tryVersion_ident (hst : s.c.state = .version) (h : SameLines stream s.c.ib) :
    let s' := (tryVersion s).2
    (s'.c.state = .version ∧ SameLines stream s'.c.ib) ∨
    s'.c.state = .error ∧ Overlong stream ∨
    s'.c.state = .expectKexinit ∧ ¬ Overlong stream ∧
      ∃ ident, firstIdent stream = some (ident, s'.c.ib) ∧ s'.c.cliVer = ident.take 255 := by
  have hident := h.ident []
  have hoverlong := h.overlong []
  rw [List.append_nil, List.append_nil] at hident hoverlong
  unfold tryVersion
  split
  · exact .inl ⟨hst, h⟩
  next hscan =>
    have hlong := @overlongFrom_tooLong [] s.c.ib [] hscan
    rw [List.append_nil] at hlong
    exact .inr (.inl ⟨s.fail_state _, hoverlong.mpr hlong⟩)
  next k hscan =>
    have hshort := versionScan_short (Nat.zero_le _) hscan
    obtain ⟨line, rest, hib, hline, rfl⟩ := versionScan_line hscan
    rw [Nat.zero_add] at hshort ⊢
    rw [hib, versionLine_eq]
    rw [hib] at h hident hoverlong
    have hdrop : s.c.ib.drop (line.length + 1) = rest := by
      rw [hib, List.drop_append]
      simp
    dsimp only
    split
    next hssh =>
      have hbegin := (chomp_begins line).mp hssh
      rw [firstIdent_line rest hline, if_pos hbegin] at hident
      rw [overlong_line rest hline hshort] at hoverlong
      refine .inr (.inr ⟨rfl, fun hlong => (hoverlong.mp hlong).1 hbegin, chomp line, ?_, rfl⟩)
      simp only [Ssh.ibConsume, hdrop]
      exact hident
    next hssh =>
      refine .inl ⟨hst, ?_⟩
      simp only [Ssh.ibConsume, hdrop]
      exact h.pass hline hshort fun hbegin => hssh ((chomp_begins line).mpr hbegin)

/-- Without a newline there is no line. -/
theorem firstIdentFrom_none : ∀ {ib line : List UInt8}, 0x0A ∉ ib → firstIdentFrom line ib = none
  | [], _, _ => rfl
  | b :: ib, line, h => by
      rw [List.mem_cons, not_or] at h
      rw [firstIdentFrom, if_neg fun hb => h.1 hb.symm, firstIdentFrom_none h.2]

/-! ## Calls and packets -/

/-- The line and the buffer stay, and so does the state unless the call fails. -/
structure Ssh.Heeds (s s' : Ssh) : Prop where
  cliVer : s'.c.cliVer = s.c.cliVer
  ib : s'.c.ib = s.c.ib
  state : s'.c.state = s.c.state ∨ s'.c.state = .error

theorem Ssh.Heeds.sends (h : s.Sends s') : s.Heeds s' := by
  have hver := congrArg SshConn.cliVer h.conn
  have hib := congrArg SshConn.ib h.conn
  refine ⟨hver, hib, ?_⟩
  rcases h.settles with ⟨hst, -⟩ | ⟨hst, -⟩
  · exact .inl hst
  · exact .inr hst

theorem Ssh.Heeds.quiet (h : s.Quiet s') : s.Heeds s' := by
  have hver := congrArg SshConn.cliVer h.conn.eq
  have hib := congrArg SshConn.ib h.conn.eq
  exact ⟨hver, hib, .inl h.state⟩

theorem Ssh.Heeds.trans {s'' : Ssh} (h : s.Heeds s') (h' : s'.Heeds s'') : s.Heeds s'' := by
  refine ⟨h'.cliVer.trans h.cliVer, h'.ib.trans h.ib, ?_⟩
  rcases h'.state with hst | hst
  · rw [hst]
    exact h.state
  · exact .inr hst

theorem Ssh.Heeds.reply (env : SshEnv) (h : s.Quiet s') (payload : List UInt8) :
    s.Heeds (s'.sendPacket env payload) :=
  (quiet h).trans (.sends (.sendPacket env s' payload))

theorem Ssh.Heeds.act (h : s.Act env W s') : s.Heeds s' := by
  cases h with
  | quiet h => exact .quiet h
  | fail why => exact .sends (.fail s why)
  | send payload => exact .sends (.sendPacket env s payload)
  | cout staged => exact ⟨rfl, rfl, .inl rfl⟩
  | key b hst => exact ⟨rfl, rfl, .inl rfl⟩
  | channel c' h hopen =>
      have hver := congrArg SshConn.cliVer h.eq
      have hib := congrArg SshConn.ib h.eq
      have hst := congrArg SshConn.state h.eq
      exact ⟨hver, hib, .inl hst⟩
  | winsize cols rows hW hst => exact ⟨rfl, rfl, .inl rfl⟩

theorem Ssh.Heeds.acts (h : s.Acts env W s') : s.Heeds s' :=
  Ssh.Acts.lift (R := fun s s' => s.Heeds s') (fun _ => ⟨rfl, rfl, .inl rfl⟩)
    (fun _ _ _ => .trans) (fun _ _ => .act) h

theorem IdentInv.heeds (h : IdentInv stream s.c) (hh : s.Heeds s') : IdentInv stream s'.c := by
  rcases hh.state with hst | hst
  · constructor
    · rw [hst, hh.ib]
      exact h.waiting
    · rw [hst, hh.cliVer]
      exact h.taken
  · exact .failed hst

/-- A packet does not touch the line. -/
theorem Deed.cliVer {pl : Payload} (h : Deed env W pl s s') :
    s'.c.cliVer = s.c.cliVer ∧ (s.c.state ≠ .version → s'.c.state ≠ .version) := by
  cases h with
  | acts ha =>
      have hh := Ssh.Heeds.acts ha
      refine ⟨hh.cliVer, fun hne => ?_⟩
      rcases hh.state with hst | hst
      · rw [hst]
        exact hne
      · rw [hst]
        decide
  | disconnect s₁ hq hs' =>
      rw [hs']
      exact ⟨(Ssh.Heeds.quiet hq).cliVer, fun _ h => by cases h⟩
  | kexinit _ s₁ hq _ _ hs' =>
      have hneg := (Ssh.Heeds.quiet (hq.trans (negotiate_quiet env s₁ pl))).cliVer
      rw [hs']
      exact ⟨hneg, fun _ h => by cases h⟩
  | ecdh _ s₁ hq _ _ _ raw _ _ hs' =>
      obtain ⟨s₂, heq, hc, -⟩ := ecdhReply_conn env s₁ (pl.sub 5 32).bytes
        (env.crypto.x25519PublicKey (env.rngBytes s.g.rngPos 32)) raw
      rw [← hs'] at heq
      subst heq
      rw [hc]
      exact ⟨(Ssh.Heeds.quiet hq).cliVer, fun _ h => by cases h⟩
  | newkeys _ _ hc =>
      rw [hc]
      exact ⟨rfl, fun _ h => by cases h⟩
  | service _ s₁ hq name _ hs' =>
      have hsend := Ssh.Heeds.reply env hq ([MSG_SERVICE_ACCEPT] ++ putStr name)
      rw [hs']
      exact ⟨hsend.cliVer, fun _ h => by cases h⟩
  | rejected _ s₁ hq hs' =>
      rw [hs', sendDisconnect]
      exact ⟨(Ssh.Heeds.reply env hq _).cliVer, fun _ h => by cases h⟩
  | granted _ s₁ hq hs' =>
      rw [hs', sendUserauthSuccess]
      exact ⟨(Ssh.Heeds.reply env hq _).cliVer, fun _ h => by cases h⟩
  | closed _ s₁ hq s₂ hs₂ hs' =>
      have hclose : s₁.Heeds s₂ := by
        rw [hs₂]
        split
        · exact .acts (W := True) (sshChannelClose_acts env s₁)
        · exact ⟨rfl, rfl, .inl rfl⟩
      rw [hs']
      exact ⟨((Ssh.Heeds.quiet hq).trans hclose).cliVer, fun _ h => by cases h⟩

/-! ## Runs -/

namespace IdentInv

/-- A packet leaves the server with the line it has. -/
theorem dispatch (h : IdentInv stream s.c) (hst : s.c.state ≠ .version) (herr : s.c.state ≠ .error)
    (wire : List UInt8) (mem : Nat → UInt8) (n need : Nat) :
    IdentInv stream ((s.dispatch env wire mem n).finish need).c := by
  obtain ⟨ident, rest, hstream, hshort, hver⟩ := h.taken hst herr
  obtain ⟨hver', hst'⟩ := (dispatch_deed env True s wire mem n fun _ _ => trivial).cliVer
  refine ⟨fun hversion => absurd hversion (hst' hst), fun _ _ =>
    ⟨ident, rest, hstream, hshort, ?_⟩⟩
  exact hver'.trans hver

theorem step (h : IdentInv stream s.c) (hlive : s.c.live = true) (beyond : Nat → UInt8) :
    IdentInv stream (inputStep env beyond s).2.c := by
  have herr : s.c.state ≠ .error := by
    intro herr
    simp [SshConn.live, herr] at hlive
  by_cases hst : s.c.state = .version
  · rw [inputStep, if_pos hst]
    rcases tryVersion_ident hst (h.waiting hst) with
      ⟨hst', hwait⟩ | ⟨hst', -⟩ | ⟨hst', hshort, ident, hline, hver⟩
    · exact ⟨fun _ => hwait, fun hne => absurd hst' hne⟩
    · exact .failed hst'
    · refine ⟨fun hversion => ?_, fun _ _ => ⟨ident, _, hline, hshort, hver⟩⟩
      rw [hst'] at hversion
      cases hversion
  · have hturn := inputStep_turn env beyond s
    generalize inputStep env beyond s = r at hturn ⊢
    obtain ⟨res, s'⟩ := r
    cases hturn with
    | waits => exact h
    | fails s₁ _ why => exact .failed (s₁.fail_state why)
    | wild => exact h
    | banner hversion => exact absurd hversion hst
    | version hversion => exact absurd hversion hst
    | plain => exact h.dispatch hst herr _ _ _ _
    | opened =>
        have hopened : IdentInv stream (s.c.opened env) :=
          ⟨fun hversion => absurd hversion hst, h.taken⟩
        exact dispatch (s := { s with c := s.c.opened env }) hopened hst herr _ _ _ _

/-- More bytes of the stream. -/
theorem fill (h : IdentInv stream s.c) (data : List UInt8) :
    IdentInv (stream ++ data) { s.c with ib := s.c.ib ++ data } := by
  refine ⟨fun hst => (h.waiting hst).fill data, fun hst herr => ?_⟩
  obtain ⟨ident, rest, hstream, hshort, hver⟩ := h.taken hst herr
  refine ⟨ident, rest ++ data, firstIdent_append data hstream, ?_, hver⟩
  rw [Overlong, overlongFrom_ident data hstream]
  exact hshort

theorem call (h : IdentInv stream s.c) {op : SshOp} (hrun : op.run env s = some s') :
    IdentInv (stream ++ fedBytes [op]) s'.c := by
  cases op with
  | input data beyond fuel =>
      have hfed : fedBytes [.input data beyond fuel] = data := List.append_nil data
      rw [hfed]
      simp only [SshOp.run, sshInput] at hrun
      split at hrun
      next herr =>
        cases hrun
        exact .failed herr
      next hlive =>
        split at hrun
        · cases hrun
          refine .failed ?_
          rw [Ssh.fail, if_pos hlive]
        · split at hrun
          · cases hrun
          · refine inputLoop_preserves (P := fun s => IdentInv (stream ++ data) s.c) ?_ beyond fuel 0
              _ s' (h.fill data) hrun
            exact fun beyond s h hlive => h.step hlive beyond
  | putc b =>
      rw [show fedBytes [.putc b] = [] from rfl, List.append_nil]
      have hc : s'.c = s.c := by
        cases hrun
        unfold sshChannelPutc
        repeat' split
        all_goals rfl
      rw [hc]
      exact h
  | flush =>
      rw [show fedBytes [.flush] = [] from rfl, List.append_nil]
      cases hrun
      exact h.heeds (.acts (W := True) (sshChannelFlush_acts env s))
  | emit plain outmax =>
      rw [show fedBytes [.emit plain outmax] = [] from rfl, List.append_nil]
      cases hrun
      obtain ⟨s₂, hq, hs⟩ := sshChannelEmit_sends env s plain outmax
      exact h.heeds ((Ssh.Heeds.quiet hq).trans (.sends hs))
  | close =>
      rw [show fedBytes [.close] = [] from rfl, List.append_nil]
      cases hrun
      exact h.heeds (.acts (W := True) (sshChannelClose_acts env s))
  | _ =>
      rw [show fedBytes [_] = [] from rfl, List.append_nil]
      cases hrun
      exact h

theorem run : ∀ (ops : List SshOp) {s s' : Ssh} {stream : List UInt8}, IdentInv stream s.c →
    sshRun env ops s = some s' → IdentInv (stream ++ fedBytes ops) s'.c
  | [], s, s', stream, h, hrun => by
      cases hrun
      rw [show fedBytes [] = [] from rfl, List.append_nil]
      exact h
  | op :: ops, s, s', stream, h, hrun => by
      rw [sshRun, Option.bind_eq_some_iff] at hrun
      obtain ⟨s₁, hop, hrest⟩ := hrun
      have hnext := run ops (h.call hop) hrest
      rw [List.append_assoc, ← fedBytes_cons] at hnext
      exact hnext

theorem reset (env : SshEnv) (g : SshShared) : IdentInv [] (sshReset env g).c := by
  obtain ⟨s₀, iS, hc, -, hs⟩ := sshReset_sends env g
  refine heeds (s := s₀) ?_ (.sends hs)
  rw [hc]
  exact ⟨fun _ => .refl _, fun hne => absurd rfl hne⟩

/-- A turn that does not go on leaves the line missing, or the exchange is over. -/
theorem last (h : IdentInv stream s.c) (beyond : Nat → UInt8)
    (hlast : (inputStep env beyond s).1 ≠ .progressed)
    (hst : (inputStep env beyond s).2.c.state = .version) : firstIdent stream = none := by
  by_cases hversion : s.c.state = .version
  · rw [inputStep, if_pos hversion] at hlast hst
    have hident := (h.waiting hversion).ident []
    rw [List.append_nil, List.append_nil] at hident
    unfold tryVersion at hlast hst
    generalize hscan : versionScan s.c.ib 0 = scan at hlast hst
    cases scan with
    | more => exact hident.trans (firstIdentFrom_none (versionScan_more hscan))
    | tooLong => simp [Ssh.fail_state] at hst
    | line => exact absurd rfl hlast
  · have hturn := inputStep_turn env beyond s
    generalize inputStep env beyond s = r at hlast hst hturn
    obtain ⟨res, s'⟩ := r
    cases hturn with
    | waits => exact absurd hst hversion
    | fails s₁ _ why =>
        have herr := s₁.fail_state why
        exact absurd (hst.symm.trans herr) (by decide)
    | wild => exact absurd hst hversion
    | _ => exact absurd rfl hlast

/-- When the loop of `ssh_input` ends and the server still waits, the line is missing. -/
theorem loop (beyond : Nat → Nat → UInt8) : ∀ (fuel t : Nat) {s s' : Ssh},
    IdentInv stream s.c → inputLoop env beyond fuel t s = .back s' → s'.c.state = .version →
      firstIdent stream = none
  | 0, t, s, s', _, hback, hst => by
      rw [inputLoop] at hback
      split at hback
      · cases hback
      next hdead =>
        cases hback
        exact absurd (by simp [SshConn.live, hst]) hdead
  | fuel + 1, t, s, s', h, hback, hst => by
      rw [inputLoop] at hback
      split at hback
      next hlive =>
        have hnext := @IdentInv.step env s stream h hlive (beyond t)
        have hlast := @IdentInv.last env s stream h (beyond t)
        generalize inputStep env (beyond t) s = r at hback hnext hlast
        obtain ⟨res, s₁⟩ := r
        cases res with
        | progressed => exact loop beyond fuel (t + 1) hnext hback hst
        | needMore =>
            cases hback
            exact hlast (fun h => TryRes.noConfusion h) hst
        | failed =>
            cases hback
            exact hlast (fun h => TryRes.noConfusion h) hst
        | wild => cases hback
      next hdead =>
        cases hback
        exact absurd (by simp [SshConn.live, hst]) hdead

end IdentInv

/-- The line of the stream fits into the place that the server has for it, or it comes to a line
that it rejects. -/
def IdentFits (stream : List UInt8) : Prop :=
  Overlong stream ∨ ∀ ident rest, firstIdent stream = some (ident, rest) → ident.length ≤ 255

/-- The first bytes of the line are the line if and only if it fits. -/
theorem identFits_iff {ident rest : List UInt8} (h : firstIdent stream = some (ident, rest))
    (hshort : ¬ Overlong stream) : IdentFits stream ↔ ident = ident.take 255 := by
  rw [eq_comm, List.take_eq_self_iff, IdentFits, or_iff_right hshort]
  constructor
  · exact fun hfits => hfits ident rest h
  · intro hlen i r hi
    rw [h] at hi
    cases hi
    exact hlen

/-- The server has exactly the first line that begins with `SSH-`, and what follows it is left, or
it has failed. -/
def Exchanged (stream : List UInt8) (c : SshConn) : Prop :=
  c.state = .error ∨ firstIdent stream = some (c.cliVer, c.ib)

/-- In every run, the turn that ends the exchange takes exactly the first line that begins with
`SSH-` and leaves what follows it, or fails, if and only if that line has at most 255 bytes or a
line up to it has more than 301; it fails if and only if there is such a long line.  Every later
state has the line under the same condition.  When `ssh_input` returns and still waits for the
line, the line has not come. -/
theorem ident_taken_iff {ops : List SshOp} (hrun : sshRun env ops (sshReset env g) = some s) :
    (∀ beyond s', (inputStep env beyond s).2 = s' → s.c.state = .version → s'.c.state ≠ .version →
      (Exchanged (fedBytes ops) s'.c ↔ IdentFits (fedBytes ops)) ∧
      (s'.c.state = .error ↔ Overlong (fedBytes ops))) ∧
    (s.c.state ≠ .version → s.c.state ≠ .error →
      ((firstIdent (fedBytes ops)).map Prod.fst = some s.c.cliVer ↔ IdentFits (fedBytes ops))) ∧
    ∀ data beyond fuel s', sshInput env beyond fuel s data = .back s' → s'.c.state = .version →
      firstIdent (fedBytes ops ++ data) = none := by
  have hinv := (IdentInv.reset env g).run ops hrun
  rw [List.nil_append] at hinv
  refine ⟨fun beyond s' hstep hst hst' => ?_, fun hst herr => ?_,
    fun data beyond fuel s' hback hst => ?_⟩
  · rw [inputStep, if_pos hst] at hstep
    have hcases := tryVersion_ident hst (hinv.waiting hst)
    rw [hstep] at hcases
    rcases hcases with ⟨hsame, -⟩ | ⟨herr, hlong⟩ | ⟨hnew, hshort, ident, hline, hver⟩
    · exact absurd hsame hst'
    · exact ⟨iff_of_true (.inl herr) (.inl hlong), iff_of_true herr hlong⟩
    · have herr : s'.c.state ≠ .error := by
        rw [hnew]
        decide
      refine ⟨?_, iff_of_false herr hshort⟩
      rw [identFits_iff hline hshort, Exchanged, or_iff_right herr, hline, hver, Option.some.injEq,
        Prod.mk.injEq]
      exact and_iff_left rfl
  · obtain ⟨ident, rest, hline, hshort, hver⟩ := hinv.taken hst herr
    rw [identFits_iff hline hshort, hline, hver, Option.map_some, Option.some.injEq]
  · unfold sshInput at hback
    split at hback
    next herr =>
      cases hback
      rw [herr] at hst
      cases hst
    next =>
      split at hback
      · cases hback
        exact absurd hst (by rw [Ssh.fail_state]; decide)
      · split at hback
        · cases hback
        · exact IdentInv.loop beyond fuel 0 (hinv.fill data) hback hst

end

/-! ## Two clients -/

/-- A line of text and the identification line, in two chunks. -/
def bannerOps : List SshOp := feed [ascii "hello\r\nSSH-2.0", ascii "-client\r\nab"]

theorem ident_taken_banner : ∃ s,
    sshRun sampleEnv bannerOps (sshReset sampleEnv SshShared.zero) = some s ∧
    s.c.state = .expectKexinit ∧ s.c.ib = ascii "ab" ∧
    (firstIdent (fedBytes bannerOps)).map Prod.fst = some s.c.cliVer := by
  have hrun : (sshRun sampleEnv bannerOps (sshReset sampleEnv SshShared.zero)).map
      (fun s => (s.c.state, s.c.ib)) = some (.expectKexinit, ascii "ab") := by
    decide +kernel
  have hline : firstIdent (fedBytes bannerOps) = some (ascii "SSH-2.0-client", ascii "ab") := by
    decide +kernel
  have hfits : IdentFits (fedBytes bannerOps) := by
    refine .inr fun ident rest h => ?_
    rw [hline] at h
    cases h
    decide
  obtain ⟨s, hs, heq⟩ := Option.map_eq_some_iff.mp hrun
  rw [Prod.mk.injEq] at heq
  refine ⟨s, hs, heq.1, heq.2, ((ident_taken_iff hs).2.1 ?_ ?_).mpr hfits⟩
  all_goals
    rw [heq.1]
    decide

/-- A line of 260 bytes is accepted and kept without its last five. -/
theorem long_ident_cut : ∃ ops s,
    sshRun sampleEnv ops (sshReset sampleEnv SshShared.zero) = some s ∧
    s.c.state = .expectKexinit ∧
    firstIdent (fedBytes ops) = some (ascii "SSH-" ++ List.replicate 256 65, []) ∧
    s.c.cliVer = ascii "SSH-" ++ List.replicate 251 65 := by
  have hrun : (sshRun sampleEnv (feed [ascii "SSH-" ++ List.replicate 256 65 ++ ascii "\r\n"])
      (sshReset sampleEnv SshShared.zero)).map (fun s => (s.c.state, s.c.cliVer)) =
      some (.expectKexinit, ascii "SSH-" ++ List.replicate 251 65) := by
    decide +kernel
  have hline : firstIdent (fedBytes
      (feed [ascii "SSH-" ++ List.replicate 256 65 ++ ascii "\r\n"])) =
      some (ascii "SSH-" ++ List.replicate 256 65, []) := by
    decide +kernel
  obtain ⟨s, hs, heq⟩ := Option.map_eq_some_iff.mp hrun
  rw [Prod.mk.injEq] at heq
  exact ⟨_, s, hs, heq.1, hline, heq.2⟩

end Dossh
