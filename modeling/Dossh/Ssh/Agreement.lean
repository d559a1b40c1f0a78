import Mathlib.Data.Nat.Digits.Defs
import Dossh.Ssh.Invariant

/-!
# Key agreement

The transcript is hashed in two handlers and the keys are expanded block by block.  Here both
are compared with RFC 4253: what a connection has hashed when its key exchange ends is the
transcript of section 8, over the packets that were sent and handled, and its keys are the
expansion of section 7.2.
-/

namespace Dossh

open Ssh

/-! ## Integers on the wire -/

/-- The number a byte string stands for, big-endian. -/
def beNat (bytes : List UInt8) : Nat := Nat.ofDigits 256 (bytes.reverse.map UInt8.toNat)

/-- `mpint` of RFC 4251: the fewest bytes that hold the number and a clear sign bit. -/
def mpint (n : Nat) : List UInt8 :=
  match (Nat.digits 256 n).reverse with
  | [] => putStr []
  | d :: ds =>
      let v := (d :: ds).map UInt8.ofNat
      putStr (if 128 ≤ d then 0 :: v else v)

theorem beNat_zero_cons (bytes : List UInt8) : beNat (0 :: bytes) = beNat bytes := by
  simp [beNat, Nat.ofDigits_append]

theorem beNat_dropWhile : ∀ bytes : List UInt8, beNat (bytes.dropWhile (· = 0)) = beNat bytes
  | [] => rfl
  | b :: bytes => by
      rw [List.dropWhile_cons]
      split
      next hb =>
        rw [of_decide_eq_true hb, beNat_zero_cons, beNat_dropWhile bytes]
      next => rfl

/-- The digits of a number without leading zeros are its bytes. -/
theorem digits_beNat {b : UInt8} (v : List UInt8) (hb : b ≠ 0) :
    (Nat.digits 256 (beNat (b :: v))).reverse = (b :: v).map UInt8.toNat := by
  unfold beNat
  rw [Nat.digits_ofDigits 256 (by decide)]
  · rw [← List.map_reverse, List.reverse_reverse]
  · intro d hd
    obtain ⟨x, -, rfl⟩ := List.mem_map.mp hd
    exact x.toNat_lt
  · intro hne
    simp only [List.reverse_cons, List.map_append, List.map_cons, List.map_nil,
      List.getLast_concat]
    rw [← UInt8.toNat_zero]
    exact fun h => hb (UInt8.toNat_inj.mp h)

theorem signBit_iff : ∀ b : UInt8, b &&& 0x80 ≠ 0 ↔ 128 ≤ b.toNat :=
  forall_byte (by decide +kernel)

/-- `build_kmpint` encodes the shared secret, read as a big-endian number. -/
theorem buildKmpint_eq (raw : List UInt8) : buildKmpint raw = mpint (beNat raw) := by
  rw [← beNat_dropWhile raw]
  unfold buildKmpint
  split
  next hnil =>
    rw [hnil]
    rfl
  next b v hcons =>
    have hb : b ≠ 0 := by
      have hhead := List.head_dropWhile_not (p := (· = 0)) (l := raw) (by rw [hcons]; simp)
      simp only [hcons, List.head_cons, decide_eq_false_iff_not] at hhead
      exact hhead
    unfold mpint
    rw [hcons, digits_beNat v hb, List.map_cons]
    have hmap : (b.toNat :: v.map UInt8.toNat).map UInt8.ofNat = b :: v := by
      simp [Function.comp_def]
    dsimp only
    rw [hmap]
    split
    next hsign => rw [if_pos ((signBit_iff b).mp hsign)]
    next hsign => rw [if_neg fun h => hsign ((signBit_iff b).mpr h)]

/-! ## Key expansion -/

/-- The first `n + 1` blocks of the expansion of RFC 4253, section 7.2: the first block hashes
the letter and the session id, and each further block hashes all blocks before it. -/
def expansion (cr : Crypto) (k h : List UInt8) (letter : UInt8) (sessionId : List UInt8) :
    Nat → List UInt8
  | 0 => cr.sha256 (k ++ h ++ [letter] ++ sessionId)
  | n + 1 =>
      let blocks := expansion cr k h letter sessionId n
      blocks ++ cr.sha256 (k ++ h ++ blocks)

section

variable (cr : Crypto) (k h : List UInt8) (letter : UInt8) (sessionId : List UInt8)

theorem length_expansion : ∀ n, (expansion cr k h letter sessionId n).length = 32 * (n + 1)
  | 0 => cr.length_sha256 _
  | n + 1 => by
      rw [expansion, List.length_append, length_expansion n, cr.length_sha256]
      rfl

/-- Further blocks do not change what came before. -/
theorem take_expansion {outlen n : Nat} (hle : outlen ≤ 32 * (n + 1)) : ∀ j,
    (expansion cr k h letter sessionId (n + j)).take outlen =
      (expansion cr k h letter sessionId n).take outlen
  | 0 => rfl
  | j + 1 => by
      have hlen := length_expansion cr k h letter sessionId (n + j)
      rw [← Nat.add_assoc, expansion, List.take_append_of_le_length (by omega),
        take_expansion hle j]

/-- The loop appends block after block, the last one cut. -/
theorem deriveLoop_expansion (outlen : Nat) : ∀ fuel n,
    deriveLoop cr k h outlen fuel ((expansion cr k h letter sessionId n).take outlen) =
      (expansion cr k h letter sessionId (n + fuel)).take outlen
  | 0, n => rfl
  | fuel + 1, n => by
      have hlen := length_expansion cr k h letter sessionId n
      rw [deriveLoop]
      split
      next hshort =>
        rw [List.length_take] at hshort
        have htake : (expansion cr k h letter sessionId n).take outlen =
            expansion cr k h letter sessionId n := List.take_of_length_le (by omega)
        have hnext : expansion cr k h letter sessionId n ++
            (cr.sha256 (k ++ h ++ expansion cr k h letter sessionId n)).take
              (outlen - (expansion cr k h letter sessionId n).length) =
            (expansion cr k h letter sessionId (n + 1)).take outlen := by
          rw [expansion, List.take_append, htake]
        rw [htake, hnext, deriveLoop_expansion outlen fuel (n + 1), Nat.add_right_comm,
          Nat.add_assoc]
      next hfull =>
        rw [List.length_take] at hfull
        exact (take_expansion cr k h letter sessionId (by omega) (fuel + 1)).symm

/-- `derive_key` is the beginning of the expansion. -/
theorem deriveKey_eq {outlen : Nat} (n : Nat) (hle : outlen ≤ 32 * (n + 1)) :
    deriveKey cr k h sessionId letter outlen =
      (expansion cr k h letter sessionId n).take outlen := by
  have hm : outlen ≤ 32 * (outlen + 1) := by omega
  calc deriveKey cr k h sessionId letter outlen
    _ = (expansion cr k h letter sessionId (0 + outlen)).take outlen :=
        deriveLoop_expansion cr k h letter sessionId outlen outlen 0
    _ = (expansion cr k h letter sessionId (outlen + n)).take outlen := by
        rw [Nat.zero_add, take_expansion cr k h letter sessionId hm n]
    _ = (expansion cr k h letter sessionId n).take outlen := by
        rw [Nat.add_comm, take_expansion cr k h letter sessionId hle outlen]

end

/-! ## The exchange -/

/-- The transcript of RFC 4253, section 8. -/
def transcript (vC vS iC iS kS qC qS : List UInt8) (k : Nat) : List UInt8 :=
  putStr vC ++ putStr vS ++ putStr iC ++ putStr iS ++ putStr kS ++ putStr qC ++ putStr qS ++ mpint k

/-- The payloads handled in a state, newest first. -/
def handledIn (st : SshState) (trace : List SshEvent) : List (List UInt8) :=
  trace.filterMap fun
    | .packet st' _ _ _ _ payload => if st' = st then some payload else none
    | _ => none

/-- The first packet on a connection, behind the identification line. -/
def FirstSent (trace : List SshEvent) (payload : List UInt8) : Prop :=
  ∃ later bytes, trace =
    later ++ [.frame false 0 payload bytes, .ident (ascii SERVER_ID_CRLF)]

/-- `negotiate` accepted this payload. -/
def Negotiated (env : SshEnv) (payload : List UInt8) : Prop :=
  ∃ s pl, pl.bytes = payload ∧ (negotiate env s pl).1 = .ok

/-- The hash and the keys of a connection are those of its handshake.  `iS` was sent first,
`iC` is the packet on which `EXPECT_KEXINIT` was left and `init` the one on which
`EXPECT_ECDH_INIT` was. -/
def Agreed (env : SshEnv) (c : SshConn) (h : List UInt8) : Prop :=
  ∃ iC iS init pos,
    FirstSent c.trace iS ∧ (handledIn .expectKexinit c.trace).head? = some iC ∧
    Negotiated env iC ∧ (handledIn .expectEcdhInit c.trace).head? = some init ∧
    37 ≤ init.length ∧ init.head? = some MSG_KEX_ECDH_INIT ∧
    let ephSk := env.rngBytes pos 32
    let qC := (init.drop 5).take 32
    let k := beNat (env.crypto.x25519 ephSk qC)
    h = env.crypto.sha256 (transcript c.cliVer (ascii SERVER_ID) iC iS (buildKsBlob env) qC
      (env.crypto.x25519PublicKey ephSk) k) ∧
    c.sessionId = h ∧
    c.ekC2s = (expansion env.crypto (mpint k) h 0x43 h 1).take 64 ∧
    c.ekS2c = (expansion env.crypto (mpint k) h 0x44 h 1).take 64

/-- What is kept of the handshake from one packet to the next. -/
structure KexInv (env : SshEnv) (c : SshConn) : Prop where
  sent : FirstSent c.trace c.iS
  fresh : c.state.keyless = true → c.keysReady = false ∧ c.haveSessionId = false
  hashed : c.state = .expectEcdhInit → ∃ iC,
    (handledIn .expectKexinit c.trace).head? = some iC ∧ Negotiated env iC ∧
    c.hctx = putStr c.cliVer ++ putNl SERVER_ID ++ putStr iC ++ putStr c.iS
  agreed : c.keysReady = true → ∃ h, Agreed env c h

/-! ## Steps beside the exchange -/

/-- The fields of the handshake. -/
abbrev SshConn.kex (c : SshConn) : List UInt8 × List UInt8 × List UInt8 × List UInt8 × Bool ×
    List UInt8 × List UInt8 × Bool :=
  (c.cliVer, c.iS, c.hctx, c.sessionId, c.haveSessionId, c.ekC2s, c.ekS2c, c.keysReady)

/-- The handshake is left alone: the connection may go on to a state behind it. -/
structure SshConn.Aside (c c' : SshConn) : Prop where
  kex : c'.kex = c.kex
  state : c'.state = c.state ∨ c'.state.early = false
  trace : ∃ es, c'.trace = es ++ c.trace ∧ ∀ e ∈ es, e.inner = true

namespace SshConn.Aside

variable {env : SshEnv} {W : Prop} {c c' c'' : SshConn} {s s' : Ssh}

theorem refl (c : SshConn) : c.Aside c := ⟨rfl, .inl rfl, [], rfl, by simp⟩

theorem trans (h : c.Aside c') (h' : c'.Aside c'') : c.Aside c'' := by
  refine ⟨h'.kex.trans h.kex, ?_, ?_⟩
  · rcases h'.state with hst' | hst'
    · rcases h.state with hst | hst
      · exact .inl (hst'.trans hst)
      · exact .inr (by rw [hst', hst])
    · exact .inr hst'
  · obtain ⟨es, htr, hes⟩ := h.trace
    obtain ⟨es', htr', hes'⟩ := h'.trace
    refine ⟨es' ++ es, by rw [htr', htr, List.append_assoc], fun e he => ?_⟩
    rcases List.mem_append.mp he with he' | he'
    · exact hes' e he'
    · exact hes e he'

theorem of_eq (hkex : c'.kex = c.kex) (hst : c'.state = c.state) (htr : c'.trace = c.trace) :
    c.Aside c' := ⟨hkex, .inl hst, [], htr, by simp⟩

theorem quiet (h : s.Quiet s') : s.c.Aside s'.c := by
  have hc := h.conn.eq
  refine of_eq ?_ ?_ ?_
  all_goals rw [hc]

theorem sends (h : s.Sends s') : s.c.Aside s'.c := by
  refine ⟨by rw [h.conn], ?_, ?_⟩
  · rcases h.settles with ⟨hst, -⟩ | ⟨hst, -⟩
    · exact .inl hst
    · exact .inr (by rw [hst]; rfl)
  · obtain ⟨es, htr, hes⟩ := h.logs
    refine ⟨es, htr, fun e he => ?_⟩
    obtain ⟨seq, payload, bytes, rfl⟩ := hes e he
    rfl

theorem act (h : s.Act env W s') : s.c.Aside s'.c := by
  cases h with
  | quiet h => exact .quiet h
  | fail why => exact .sends (.fail s why)
  | send payload => exact .sends (.sendPacket env s payload)
  | cout staged => exact .refl s.c
  | key b hst => exact ⟨rfl, .inl rfl, [.key b], rfl, by simp [SshEvent.inner]⟩
  | channel c' h hopen =>
      have hc := h.eq
      refine of_eq ?_ ?_ ?_
      all_goals
        dsimp only
        rw [hc]
  | winsize cols rows hW hst => exact .of_eq rfl rfl rfl

theorem acts (h : s.Acts env W s') : s.c.Aside s'.c :=
  Ssh.Acts.lift (R := fun s s' => s.c.Aside s'.c) (fun s => refl s.c) (fun _ _ _ => trans)
    (fun _ _ => act) h

/-- The state is assigned. -/
theorem setState (c : SshConn) {st : SshState} (hst : st.early = false) :
    c.Aside { c with state := st } := ⟨rfl, .inr hst, [], rfl, by simp⟩

end SshConn.Aside

/-! ## The invariant -/

section

variable {env : SshEnv} {W : Prop} {pl : Payload} {s s' : Ssh}

theorem handledIn_append {es : List SshEvent} (hes : ∀ e ∈ es, e.inner = true) (st : SshState)
    (trace : List SshEvent) : handledIn st (es ++ trace) = handledIn st trace := by
  induction es with
  | nil => rfl
  | cons e es ih =>
      have he := hes e List.mem_cons_self
      cases e with
      | packet => cases he
      | _ => exact ih fun e he => hes e (List.mem_cons_of_mem _ he)

theorem handledIn_packet (st : SshState) (s : Ssh) (wire payload : List UInt8) :
    handledIn st (s.note (s.packetEvent wire payload)).c.trace =
      if s.c.state = st then payload :: handledIn st s.c.trace else handledIn st s.c.trace := by
  split
  next hst => simp [handledIn, Ssh.note, packetEvent, hst]
  next hst => simp [handledIn, Ssh.note, packetEvent, hst]

theorem FirstSent.append {trace : List SshEvent} {payload : List UInt8}
    (h : FirstSent trace payload) (es : List SshEvent) : FirstSent (es ++ trace) payload := by
  obtain ⟨later, bytes, rfl⟩ := h
  exact ⟨es ++ later, bytes, by simp⟩

theorem SshState.early_of_keyless {st : SshState} (h : st.keyless = true) : st.early = true := by
  cases st with
  | version | expectKexinit | expectEcdhInit => rfl
  | _ => cases h

/-- Agreement is kept while the handshake is left alone. -/
theorem Agreed.later {c c' : SshConn} {h : List UInt8} (ha : Agreed env c h)
    (hkex : c'.kex = c.kex) (htr : ∃ es, c'.trace = es ++ c.trace)
    (hk : handledIn .expectKexinit c'.trace = handledIn .expectKexinit c.trace)
    (he : handledIn .expectEcdhInit c'.trace = handledIn .expectEcdhInit c.trace) :
    Agreed env c' h := by
  simp only [SshConn.kex, Prod.mk.injEq] at hkex
  obtain ⟨hver, -, -, hsid, -, hekC, hekS, -⟩ := hkex
  obtain ⟨es, htr⟩ := htr
  obtain ⟨iC, iS, init, pos, hsent, hiC, hneg, hinit, hlen, hmsg, hh, hs, hc2s, hs2c⟩ := ha
  refine ⟨iC, iS, init, pos, ?_, by rw [hk, hiC], hneg, by rw [he, hinit], hlen, hmsg, ?_, ?_, ?_, ?_⟩
  · rw [htr]
    exact hsent.append es
  · rw [hver]
    exact hh
  · rw [hsid]
    exact hs
  · rw [hekC]
    exact hc2s
  · rw [hekS]
    exact hs2c

theorem KexInv.aside {c c' : SshConn} (h : KexInv env c) (ha : c.Aside c') : KexInv env c' := by
  obtain ⟨es, htr, hes⟩ := ha.trace
  have hin : ∀ st, handledIn st c'.trace = handledIn st c.trace := fun st => by
    rw [htr, handledIn_append hes]
  have hkex := ha.kex
  simp only [SshConn.kex, Prod.mk.injEq] at hkex
  obtain ⟨hver, his, hhctx, -, hhave, -, -, hready⟩ := hkex
  have hsame : c'.state.keyless = true → c'.state = c.state := by
    intro hk
    rcases ha.state with hst | hst
    · exact hst
    · rw [SshState.early_of_keyless hk] at hst
      cases hst
  refine ⟨?_, fun hk => ?_, fun hst => ?_, fun hk => ?_⟩
  · rw [htr, his]
    exact h.sent.append es
  · rw [hready, hhave]
    exact h.fresh (by rw [← hsame hk, hk])
  · rw [hin, hhctx, hver, his]
    exact h.hashed (by rw [← hsame (by rw [hst]; rfl), hst])
  · obtain ⟨hash, hagreed⟩ := h.agreed (by rw [← hready, hk])
    exact ⟨hash, hagreed.later ha.kex ⟨es, htr⟩ (hin _) (hin _)⟩

/-- The record of the packet that is handled. -/
theorem KexInv.note (h : KexInv env s.c) (wire payload : List UInt8) :
    KexInv env (s.note (s.packetEvent wire payload)).c := by
  have htr : (s.note (s.packetEvent wire payload)).c.trace =
      [s.packetEvent wire payload] ++ s.c.trace := rfl
  refine ⟨?_, h.fresh, fun hst => ?_, fun hk => ?_⟩
  · rw [htr]
    exact h.sent.append _
  · have hne : s.c.state ≠ .expectKexinit := by
      intro hst'
      rw [Ssh.note] at hst
      rw [hst'] at hst
      cases hst
    rw [handledIn_packet, if_neg hne]
    exact h.hashed hst
  · have hlate : ∀ st : SshState, st.keyless = true → s.c.state ≠ st := by
      rintro st hst rfl
      exact absurd ((h.fresh hst).1.symm.trans hk) (by decide)
    obtain ⟨hash, hagreed⟩ := h.agreed hk
    refine ⟨hash, hagreed.later rfl ⟨_, htr⟩ ?_ ?_⟩
    · rw [handledIn_packet, if_neg (hlate _ rfl)]
    · rw [handledIn_packet, if_neg (hlate _ rfl)]

/-! ## The exchange hash -/

theorem obAppend_hash (env : SshEnv) (s : Ssh) (d : List UInt8) :
    (s.obAppend env d).g.hash = s.g.hash := by
  unfold obAppend
  split <;> rfl

theorem fail_shared (s : Ssh) (why : String) : (s.fail why).g = s.g := by
  unfold Ssh.fail
  split <;> rfl

theorem sendPacket_hash (env : SshEnv) (s : Ssh) (payload : List UInt8) :
    (s.sendPacket env payload).g.hash = s.g.hash := by
  unfold sendPacket
  split
  · unfold sendEnc
    split
    · rw [fail_shared]
    · rw [obAppend_hash]
      rfl
  · unfold sendUnenc
    dsimp only
    rw [framed, obAppend_hash, rngSkip]
    dsimp only
    rw [obAppend_hash, obAppend_hash]

theorem ecdhReply_hash (env : SshEnv) (s : Ssh) (qC qS raw : List UInt8) :
    (ecdhReply env s qC qS raw).g.hash = env.crypto.sha256 (exchangeHctx env s.c qC qS raw) := by
  unfold ecdhReply
  dsimp only
  rw [sendPacket_hash]
  dsimp only
  rw [sendPacket_hash]
  rfl

/-- The string behind the message number and its length. -/
theorem Payload.bytes_string (hlen : 37 ≤ pl.len) :
    (pl.bytes.drop 5).take 32 = (pl.sub 5 32).bytes := by
  obtain ⟨n, hn⟩ := Nat.exists_eq_add_of_le hlen
  have hsplit : pl.len - 5 = 32 + n := by omega
  rw [Payload.bytes, drop_slice, hsplit, slice_add, List.take_left' (length_slice _ _ _)]
  rfl

theorem Payload.head_bytes (hlen : pl.len ≠ 0) : pl.bytes.head? = some pl.msg := by
  obtain ⟨n, hn⟩ := Nat.exists_eq_succ_of_ne_zero hlen
  rw [Payload.bytes, hn, slice_succ, Payload.msg, if_pos hlen]
  rfl

/-- The exchange ends with the hash and the keys of the handshake. -/
theorem KexInv.ecdh (h : KexInv env s.c) (hst : s.c.state = .expectEcdhInit)
    (hhead : (handledIn .expectEcdhInit s.c.trace).head? = some pl.bytes) {s₁ : Ssh}
    (hq : s.Quiet s₁) (hmsg : pl.msg = MSG_KEX_ECDH_INIT) (hlen : 37 ≤ pl.len) {raw : List UInt8}
    (hraw : raw = env.crypto.x25519 (env.rngBytes s.g.rngPos 32) (pl.sub 5 32).bytes)
    (hs' : s' = ecdhReply env s₁ (pl.sub 5 32).bytes
      (env.crypto.x25519PublicKey (env.rngBytes s.g.rngPos 32)) raw) :
    Agreed env s'.c s'.g.hash ∧ KexInv env s'.c := by
  -- reading and drawing random bytes leave the handshake alone
  have ha : s.c.Aside s₁.c := .quiet hq
  have htr₁ := congrArg SshConn.trace hq.conn.eq
  change s₁.c.trace = s.c.trace at htr₁
  have h₁ := h.aside ha
  have hst₁ : s₁.c.state = .expectEcdhInit := by rw [hq.state, hst]
  rw [← htr₁] at hhead
  obtain ⟨iC, hiC, hneg, hhctx⟩ := h₁.hashed hst₁
  have hsid := (h₁.fresh (by rw [hst₁]; rfl)).2
  have hhash := ecdhReply_hash env s₁ (pl.sub 5 32).bytes
    (env.crypto.x25519PublicKey (env.rngBytes s.g.rngPos 32)) raw
  obtain ⟨s₂, heq, hc, es, htr, hes⟩ := ecdhReply_conn env s₁ (pl.sub 5 32).bytes
    (env.crypto.x25519PublicKey (env.rngBytes s.g.rngPos 32)) raw
  rw [← hs'] at heq hhash
  subst heq
  have hqC := Payload.bytes_string hlen
  have hin : ∀ st, handledIn st s'.c.trace = handledIn st s₁.c.trace := by
    intro st
    rw [htr]
    refine handledIn_append (fun e he => ?_) st _
    obtain ⟨seq, payload, bytes, rfl⟩ := hes e he
    rfl
  -- what was hashed is the transcript
  have htranscript : exchangeHctx env s₁.c (pl.sub 5 32).bytes
      (env.crypto.x25519PublicKey (env.rngBytes s.g.rngPos 32)) raw =
      transcript s₁.c.cliVer (ascii SERVER_ID) iC s₁.c.iS (buildKsBlob env)
        ((pl.bytes.drop 5).take 32) (env.crypto.x25519PublicKey (env.rngBytes s.g.rngPos 32))
        (beNat raw) := by
    rw [exchangeHctx, hhctx, hqC, buildKmpint_eq]
    rfl
  have hsession : ∀ hash, exchangeSessionId s₁.c hash = hash := fun hash => by
    rw [exchangeSessionId, hsid, if_neg (by decide)]
  rw [hsession] at hc
  generalize exchangeHctx env s₁.c (pl.sub 5 32).bytes
    (env.crypto.x25519PublicKey (env.rngBytes s.g.rngPos 32)) raw = hctx at *
  have hsent : FirstSent s'.c.trace s₁.c.iS := by
    rw [htr]
    exact h₁.sent.append es
  have hagreed : Agreed env s'.c s'.g.hash := by
    refine ⟨iC, s₁.c.iS, pl.bytes, s.g.rngPos, hsent, by rw [hin, hiC], hneg, by rw [hin, hhead],
      ?_, ?_, ?_⟩
    · rw [Payload.bytes, length_slice]
      exact hlen
    · rw [Payload.head_bytes (by omega), hmsg]
    · dsimp only
      rw [hhash, hqC, ← hraw]
      refine ⟨?_, ?_, ?_, ?_⟩
      · rw [hc, htranscript, hqC]
      · rw [hc]
      · rw [hc, buildKmpint_eq]
        exact deriveKey_eq _ _ _ _ _ 1 (by decide)
      · rw [hc, buildKmpint_eq]
        exact deriveKey_eq _ _ _ _ _ 1 (by decide)
  refine ⟨hagreed, ?_, ?_, ?_, fun _ => ⟨_, hagreed⟩⟩
  · have his : s'.c.iS = s₁.c.iS := by rw [hc]
    rw [his]
    exact hsent
  · rw [hc]
    intro hst'
    cases hst'
  · rw [hc]
    intro hst'
    cases hst'

/-! ## Packets, turns and runs -/

/-- The handshake goes on, and when it ends here, `g_H` is its hash. -/
def KexStep (env : SshEnv) (s s' : Ssh) : Prop :=
  KexInv env s'.c ∧ (s'.c.state = .expectClientNewkeys →
    s.c.state = .expectClientNewkeys ∨ Agreed env s'.c s'.g.hash)

theorem KexStep.aside (h : KexInv env s.c) (ha : s.c.Aside s'.c) : KexStep env s s' := by
  refine ⟨h.aside ha, fun hst => ?_⟩
  rcases ha.state with hsame | hlate
  · exact .inl (by rw [← hsame, hst])
  · rw [hst] at hlate
    cases hlate

theorem Deed.kexStep (h : KexInv env s.c)
    (hhead : (handledIn s.c.state s.c.trace).head? = some pl.bytes) (hd : Deed env W pl s s') :
    KexStep env s s' := by
  cases hd with
  | acts ha => exact .aside h (.acts ha)
  | disconnect s₁ hq hs' =>
      rw [hs']
      exact .aside h ((SshConn.Aside.quiet hq).trans (.setState _ rfl))
  | kexinit hst s₁ hq hmsg hneg hs' =>
      have ha : s.c.Aside (negotiate env s₁ pl).2.c := .quiet (hq.trans (negotiate_quiet env s₁ pl))
      have h₂ := h.aside ha
      have htr := congrArg SshConn.trace (hq.trans (negotiate_quiet env s₁ pl)).conn.eq
      change (negotiate env s₁ pl).2.c.trace = s.c.trace at htr
      have hst₂ := (hq.trans (negotiate_quiet env s₁ pl)).state
      have hkex := ha.kex
      simp only [SshConn.kex, Prod.mk.injEq] at hkex
      rw [hst] at hhead
      have hn : Negotiated env pl.bytes := ⟨s₁, pl, rfl, hneg⟩
      rw [hs']
      generalize (negotiate env s₁ pl).2 = s₂ at *
      refine ⟨⟨h₂.sent, fun _ => h₂.fresh (by rw [hst₂, hst]; rfl), fun _ => ?_, h₂.agreed⟩, nofun⟩
      refine ⟨pl.bytes, ?_, hn, ?_⟩
      · exact (congrArg (fun tr => (handledIn .expectKexinit tr).head?) htr).trans hhead
      · dsimp only
        rw [hkex.1, hkex.2.1]
  | ecdh hst s₁ hq hmsg hlen hqc raw hraw hgood hs' =>
      rw [hst] at hhead
      obtain ⟨hagreed, h'⟩ := h.ecdh hst hhead hq hmsg hlen hraw hs'
      exact ⟨h', fun _ => .inr hagreed⟩
  | newkeys hst hg hc =>
      refine .aside h ⟨by rw [hc], .inr ?_, [], by rw [hc]; rfl, by simp⟩
      rw [hc]
      rfl
  | service hst s₁ hq name hname hs' =>
      rw [hs']
      have hs := SshConn.Aside.sends (.sendPacket env s₁ ([MSG_SERVICE_ACCEPT] ++ putStr name))
      exact .aside h (((SshConn.Aside.quiet hq).trans hs).trans (.setState _ rfl))
  | rejected hst s₁ hq hs' =>
      rw [hs', sendDisconnect]
      have hs := SshConn.Aside.sends (.sendPacket env s₁ ([MSG_DISCONNECT] ++
        be32 DISCONNECT_NO_MORE_AUTH ++ putNl "too many authentication failures" ++ putNl ""))
      exact .aside h (((SshConn.Aside.quiet hq).trans hs).trans (.setState _ rfl))
  | granted hst s₁ hq hs' =>
      rw [hs', sendUserauthSuccess]
      have hs := SshConn.Aside.sends (.sendPacket env s₁ [MSG_USERAUTH_SUCCESS])
      generalize s₁.sendPacket env [MSG_USERAUTH_SUCCESS] = s₂ at *
      exact .aside h (((SshConn.Aside.quiet hq).trans hs).trans ⟨rfl, .inr rfl, [], rfl, by simp⟩)
  | closed hst s₁ hq s₂ hs₂ hs' =>
      have hclose : s₁.c.Aside s₂.c := by
        rw [hs₂]
        split
        · exact .acts (W := W) (sshChannelClose_acts env s₁)
        · exact .refl s₁.c
      rw [hs']
      exact .aside h (((SshConn.Aside.quiet hq).trans hclose).trans ⟨rfl, .inr rfl, [], rfl, by simp⟩)

/-- Consuming input does not touch the handshake. -/
theorem KexInv.congr {c c' : SshConn} (h : KexInv env c) (hkex : c'.kex = c.kex)
    (hst : c'.state = c.state) (htr : c'.trace = c.trace) : KexInv env c' :=
  h.aside (.of_eq hkex hst htr)

theorem dispatch_kexStep (h : KexInv env s.c) (wire : List UInt8) (mem : Nat → UInt8)
    (n need : Nat) : KexStep env s ((s.dispatch env wire mem n).finish need) := by
  have hd := dispatch_deed env True s wire mem n fun _ _ => trivial
  have hn := h.note wire (slice mem 0 n)
  have hhead : (handledIn s.c.state (s.note (s.packetEvent wire (slice mem 0 n))).c.trace).head? =
      some (Payload.bytes ⟨mem, 0, n⟩) := by
    rw [handledIn_packet, if_pos rfl]
    rfl
  obtain ⟨h', hend⟩ := hd.kexStep hn hhead
  generalize s.dispatch env wire mem n = s₁ at h' hend ⊢
  exact ⟨h'.congr rfl rfl rfl, fun hst => (hend hst).imp id
    fun ha => ha.later rfl ⟨[], rfl⟩ rfl rfl⟩

/-- Every turn of the input loop. -/
theorem Turn.kexStep (h : KexInv env s.c) {r : TryRes} (ht : Turn env s r s') :
    KexStep env s s' := by
  cases ht with
  | waits => exact .aside h (.refl s.c)
  | wild => exact .aside h (.refl s.c)
  | fails s₁ hs₁ why =>
      rcases hs₁ with rfl | rfl
      · exact .aside h (.sends (.fail _ why))
      · have ho : s.c.Aside (s.c.opened env) := .of_eq rfl rfl rfl
        exact .aside h (ho.trans (SshConn.Aside.sends (.fail { s with c := s.c.opened env } why)))
  | banner hst k hk => exact .aside h (.of_eq rfl rfl rfl)
  | version hst k hk line =>
      -- nothing was hashed yet
      have hf := h.fresh (by rw [hst]; rfl)
      refine ⟨⟨h.sent, fun _ => hf, nofun, fun hready => ?_⟩, nofun⟩
      exact absurd (hf.1.symm.trans hready) (by decide)
  | plain hst henc mem beyond n hib hlen hneed => exact dispatch_kexStep h _ _ _ _
  | opened hst henc hv beyond padlen hpad hle =>
      exact dispatch_kexStep (s := { s with c := s.c.opened env }) (h.congr rfl rfl rfl) _ _ _ _

theorem sendUnenc_log (env : SshEnv) (s : Ssh) (payload : List UInt8) :
    ∃ bytes, (s.sendUnenc env payload).c.trace =
      .frame false s.c.sendSeq payload bytes :: s.c.trace := by
  have hob : ∀ (s : Ssh) (d : List UInt8), (s.obAppend env d).c.sendSeq = s.c.sendSeq ∧
      (s.obAppend env d).c.trace = s.c.trace := by
    intro s d
    unfold obAppend Ssh.fail
    split
    · split <;> exact ⟨rfl, rfl⟩
    · exact ⟨rfl, rfl⟩
  unfold sendUnenc
  dsimp only
  generalize be32 (1 + payload.length + padLen (4 + 1 + payload.length)) ++
    [UInt8.ofNat (padLen (4 + 1 + payload.length))] = hdr
  generalize env.rngBytes s.g.rngPos (padLen (4 + 1 + payload.length)) = pad
  refine ⟨hdr ++ payload ++ pad, ?_⟩
  rw [framed]
  dsimp only
  rw [(hob _ _).1, (hob _ _).2, rngSkip]
  dsimp only
  rw [(hob _ _).1, (hob _ _).2, (hob _ _).1, (hob _ _).2]

theorem KexInv.reset (env : SshEnv) (g : SshShared) : KexInv env (sshReset env g).c := by
  obtain ⟨s₀, iS, hc, heq, hs⟩ := sshReset_sends env g
  have ha := SshConn.Aside.sends hs
  obtain ⟨bytes, htr⟩ := sendUnenc_log env s₀ iS
  rw [← heq, hc] at htr
  have hkex := ha.kex
  rw [hc] at hkex
  simp only [SshConn.kex, Prod.mk.injEq] at hkex
  obtain ⟨-, his, -, -, hhave, -, -, hready⟩ := hkex
  have hne : (sshReset env g).c.state ≠ .expectEcdhInit := by
    intro hst
    rcases ha.state with hsame | hlate
    · rw [hc, hst] at hsame
      cases hsame
    · rw [hst] at hlate
      cases hlate
  refine ⟨⟨[], bytes, by rw [htr, his]; rfl⟩, fun _ => ⟨hready, hhave⟩, fun hst => absurd hst hne, ?_⟩
  intro hk
  exact absurd (hready.symm.trans hk) (by decide)

theorem SshReach.kexInv (h : SshReach env s) : KexInv env s.c := by
  obtain ⟨g, ops, hrun⟩ := h
  refine sshRun_keeps (P := KexInv env) ?_ ?_ ?_ ?_ ops (.reset env g) hrun
  · exact fun c data hi => hi.congr rfl rfl rfl
  · exact fun s₁ r s₂ hi _ hturn => (hturn.kexStep hi).1
  · exact fun s₁ s₂ hi hacts => hi.aside (.acts hacts)
  · intro s₁ plain outmax hi
    obtain ⟨s₂, hq, hs⟩ := sshChannelEmit_sends env s₁ plain outmax
    exact hi.aside ((SshConn.Aside.quiet hq).trans (.sends hs))

end

/-- In every reachable state with keys there is a hash, that of the transcript of the packets
sent and handled, which is the session id and of which the keys are the expansion; and in the
turn of the input loop that reaches `EXPECT_CLIENT_NEWKEYS` that hash is `g_H`. -/
theorem key_agreement {env : SshEnv} {s : Ssh} (hreach : SshReach env s) :
    (s.c.state = .expectClientNewkeys ∨ s.c.keysReady = true → ∃ h, Agreed env s.c h) ∧
    ∀ beyond r s', s.c.live = true → inputStep env beyond s = (r, s') →
      s.c.state ≠ .expectClientNewkeys → s'.c.state = .expectClientNewkeys →
      Agreed env s'.c s'.g.hash := by
  have h := hreach.kexInv
  refine ⟨fun hk => h.agreed ?_, fun beyond r s' hlive hstep hne hst' => ?_⟩
  · rcases hk with hst | hready
    · exact (hreach.transportInv.newkeys hst).2.1
    · exact hready
  · have hturn := inputStep_turn env beyond s
    rw [hstep] at hturn
    exact ((hturn.kexStep h).2 hst').resolve_left hne

/-- The client of `sampleKex`, before the server looks at its second packet. -/
theorem key_agreement_sampleKex : ∃ s s', SshReach sampleEnv s ∧
    inputStep sampleEnv (fun _ => 0) s = (.progressed, s') ∧ s.c.state = .expectEcdhInit ∧
    s'.c.state = .expectClientNewkeys ∧ Agreed sampleEnv s'.c s'.g.hash := by
  have hrun : (sshRun sampleEnv [.input (greeting sampleKex) (fun _ _ => 0) 2]
      (sshReset sampleEnv SshShared.zero)).map (fun s => (s.c.state,
        (inputStep sampleEnv (fun _ => 0) s).1, (inputStep sampleEnv (fun _ => 0) s).2.c.state)) =
      some (.expectEcdhInit, .progressed, .expectClientNewkeys) := by decide +kernel
  obtain ⟨s, hs, hst⟩ := Option.map_eq_some_iff.mp hrun
  simp only [Prod.mk.injEq] at hst
  obtain ⟨hst, hr, hst'⟩ := hst
  have hreach : SshReach sampleEnv s := ⟨_, _, hs⟩
  have hlive : s.c.live = true := by simp [SshConn.live, hst]
  refine ⟨s, _, hreach, Prod.ext hr rfl, hst, hst', ?_⟩
  exact (key_agreement hreach).2 (fun _ => 0) .progressed _ hlive (Prod.ext hr rfl)
    (by rw [hst]; decide) hst'

end Dossh
