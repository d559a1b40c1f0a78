import Mathlib.Data.List.Nodup
import Dossh.Ssh.Invariant

/-!
# Numbers of sent packets

The nonce of a sealed packet is the count of packets framed before it.  `sendUnenc`,
`sendEnc` and `sshChannelEmit` share that count, and every one of them moves it on, also when
the output queue overflows.  The history of a connection records each packet when it is
framed, so the numbers can be read off it.
-/

namespace Dossh

open Ssh

/-- A packet that was framed. -/
structure Framed where
  encrypted : Bool
  seq : BitVec 32
  payload : List UInt8
  bytes : List UInt8
deriving DecidableEq, Repr

/-- The packet an event frames. -/
def SshEvent.framed : SshEvent → List Framed
  | .frame encrypted seq payload bytes => [⟨encrypted, seq, payload, bytes⟩]
  | _ => []

/-- The packets framed on a connection, oldest first. -/
def framesOf (trace : List SshEvent) : List Framed := trace.reverse.flatMap SshEvent.framed

theorem frames_cons (e : SshEvent) (trace : List SshEvent) :
    framesOf (e :: trace) = framesOf trace ++ e.framed := by
  simp [framesOf]

/-- The packet is sealed under its number with that key. -/
def Framed.SealedWith (env : SshEnv) (ek : List UInt8) (f : Framed) : Prop :=
  ∃ pad, f.bytes = sealFrame env.crypto ek f.seq f.payload pad

/-- The key comes from a key exchange of this session. -/
def SshConn.Derived (env : SshEnv) (c : SshConn) : Prop :=
  ∃ kmpint hash, c.ekS2c = deriveKey env.crypto kmpint hash c.sessionId 0x44 64

/-! ## The invariant -/

/-- The packets framed on a connection: the plaintext ones first, all numbered in order. -/
structure Sequenced (env : SshEnv) (c : SshConn) (before after : List Framed) : Prop where
  split : framesOf c.trace = before ++ after
  plain : ∀ f ∈ before, f.encrypted = false
  sealed : ∀ f ∈ after, f.encrypted = true ∧ f.SealedWith env c.ekS2c
  seq : (before ++ after).map Framed.seq =
    (List.range (before.length + after.length)).map (BitVec.ofNat 32)
  next : c.sendSeq = BitVec.ofNat 32 (before.length + after.length)
  none : c.sendEncrypted = false → after = []
  ready : c.sendEncrypted = true → c.keysReady = true
  derived : c.keysReady = true → c.Derived env

/-- What was framed is numbered and sealed as it should be. -/
def NonceInv (env : SshEnv) (c : SshConn) : Prop := ∃ before after, Sequenced env c before after

/-- What the invariant is about. -/
abbrev SshConn.outbound (c : SshConn) :
    BitVec 32 × Bool × Bool × List UInt8 × List UInt8 × List Framed :=
  (c.sendSeq, c.sendEncrypted, c.keysReady, c.sessionId, c.ekS2c, framesOf c.trace)

section

variable {env : SshEnv} {W : Prop} {c c' : SshConn} {s s' : Ssh}

theorem NonceInv.congr (h : NonceInv env c) (hout : c'.outbound = c.outbound) :
    NonceInv env c' := by
  obtain ⟨before, after, h⟩ := h
  simp only [SshConn.outbound, Prod.mk.injEq] at hout
  obtain ⟨hseq, henc, hready, hsid, hek, hframes⟩ := hout
  refine ⟨before, after, ?_, h.plain, ?_, h.seq, ?_, ?_, ?_, ?_⟩
  · rw [hframes, h.split]
  · rw [hek]
    exact h.sealed
  · rw [hseq, h.next]
  · rw [henc]
    exact h.none
  · rw [henc, hready]
    exact h.ready
  · rw [hready, SshConn.Derived, hek, hsid]
    exact h.derived

/-- One more packet is framed under the next number. -/
theorem NonceInv.framed (h : NonceInv env s.c) {encrypted : Bool}
    (henc : s.c.sendEncrypted = encrypted) {payload bytes : List UInt8}
    (hbytes : encrypted = true →
      ∃ pad, bytes = sealFrame env.crypto s.c.ekS2c s.c.sendSeq payload pad) :
    NonceInv env (s.framed encrypted payload bytes).c := by
  obtain ⟨before, after, h⟩ := h
  have hframes : framesOf (s.framed encrypted payload bytes).c.trace =
      before ++ after ++ [⟨encrypted, s.c.sendSeq, payload, bytes⟩] := by
    rw [← h.split]
    exact frames_cons _ _
  have hseq : (before ++ after ++ [(⟨encrypted, s.c.sendSeq, payload, bytes⟩ : Framed)]).map
      Framed.seq =
      (List.range (before.length + after.length + 1)).map (BitVec.ofNat 32) := by
    rw [List.map_append, h.seq, List.range_succ, List.map_append, h.next]
    rfl
  have hnext : s.c.sendSeq + 1 = BitVec.ofNat 32 (before.length + after.length + 1) := by
    rw [h.next]
    exact (BitVec.ofNat_add _ _).symm
  cases encrypted with
  | false =>
      have hnone := h.none henc
      subst hnone
      simp only [List.append_nil, List.length_nil, Nat.add_zero] at hframes hseq hnext
      refine ⟨before ++ [⟨false, s.c.sendSeq, payload, bytes⟩], [], ?_, ?_, by simp, ?_, ?_,
        fun _ => rfl, h.ready, h.derived⟩
      · rw [hframes, List.append_nil]
      · intro f hf
        rcases List.mem_append.mp hf with hf | hf
        · exact h.plain f hf
        · rw [List.mem_singleton.mp hf]
      · simpa using hseq
      · simpa using! hnext
  | true =>
      refine ⟨before, after ++ [⟨true, s.c.sendSeq, payload, bytes⟩], ?_, h.plain, ?_, ?_, ?_,
        fun hno => ?_, h.ready, h.derived⟩
      · rw [hframes, List.append_assoc]
      · intro f hf
        rcases List.mem_append.mp hf with hf | hf
        · exact h.sealed f hf
        · rw [List.mem_singleton.mp hf]
          exact ⟨rfl, hbytes rfl⟩
      · rw [← List.append_assoc, hseq, List.length_append, List.length_singleton, Nat.add_assoc]
      · rw [List.length_append, List.length_singleton, ← Nat.add_assoc]
        exact hnext
      · exact absurd (henc.symm.trans hno) nofun

/-- As long as nothing is sealed the keys may change. -/
theorem NonceInv.rekey (h : NonceInv env c) (hplain : c.sendEncrypted = false)
    (hseq : c'.sendSeq = c.sendSeq) (htr : framesOf c'.trace = framesOf c.trace)
    (hready : c'.sendEncrypted = true → c'.keysReady = true)
    (hderived : c'.keysReady = true → c'.Derived env) : NonceInv env c' := by
  obtain ⟨before, after, h⟩ := h
  have hnone := h.none hplain
  subst hnone
  exact ⟨before, [], htr.trans h.split, h.plain, by simp, h.seq, hseq.trans h.next,
    fun _ => rfl, hready, hderived⟩

/-! ## Sending -/

theorem NonceInv.fail (h : NonceInv env s.c) (why : String) : NonceInv env (s.fail why).c := by
  unfold Ssh.fail
  split
  · exact h.congr rfl
  · exact h

theorem obAppend_outbound (env : SshEnv) (s : Ssh) (d : List UInt8) :
    (s.obAppend env d).c.outbound = s.c.outbound := by
  unfold Ssh.obAppend Ssh.fail
  split
  · dsimp only
    split <;> rfl
  · rfl

theorem NonceInv.obAppend (h : NonceInv env s.c) (d : List UInt8) :
    NonceInv env (s.obAppend env d).c :=
  h.congr (obAppend_outbound env s d)

theorem NonceInv.sendUnenc (h : NonceInv env s.c) (hplain : s.c.sendEncrypted = false)
    (payload : List UInt8) : NonceInv env (s.sendUnenc env payload).c := by
  unfold Ssh.sendUnenc
  dsimp only
  generalize be32 _ ++ [UInt8.ofNat _] = hdr
  generalize env.rngBytes s.g.rngPos _ = pad
  generalize hs₁ : Ssh.obAppend env (Ssh.rngSkip _ _) pad = s₁
  have hout : s₁.c.outbound = s.c.outbound := by
    rw [← hs₁, obAppend_outbound]
    exact (obAppend_outbound env _ payload).trans (obAppend_outbound env s hdr)
  have henc : s₁.c.sendEncrypted = s.c.sendEncrypted := congrArg (·.2.1) hout
  exact (h.congr hout).framed (henc.trans hplain) nofun

/-- `aead_seal` takes the next number and the key of the session. -/
theorem NonceInv.aeadSeal (h : NonceInv env s.c) (hsealed : s.c.sendEncrypted = true)
    (payload : List UInt8) : NonceInv env (s.aeadSeal env payload).2.c := by
  unfold Ssh.aeadSeal
  dsimp only
  generalize env.rngBytes s.g.rngPos _ = pad
  exact NonceInv.framed (s := s.rngSkip _) (h.congr rfl) hsealed fun _ => ⟨pad, rfl⟩

theorem NonceInv.sendPacket (h : NonceInv env s.c) (payload : List UInt8) :
    NonceInv env (s.sendPacket env payload).c := by
  unfold Ssh.sendPacket
  split
  next hsealed =>
    unfold Ssh.sendEnc
    split
    · exact h.fail _
    · exact (h.aeadSeal hsealed payload).obAppend _
  next hplain => exact h.sendUnenc (by simpa using hplain) payload

theorem NonceInv.emit (h : NonceInv env s.c) (plain : List UInt8) (outmax : Nat) :
    NonceInv env (sshChannelEmit env s plain outmax).2.c := by
  unfold sshChannelEmit
  dsimp only
  split
  · exact h
  next hready =>
    repeat' split
    · exact h
    · exact h
    · exact h
    · rw [Bool.or_eq_true, not_or] at hready
      have hsealed : s.c.sendEncrypted = true := by simpa using hready.2
      exact NonceInv.aeadSeal
        (s := { s with c := { s.c with peerWindow := s.c.peerWindow - plain.length } })
        (h.congr rfl) (by exact hsealed) _

theorem NonceInv.quiet (h : NonceInv env s.c) (hq : s.Quiet s') : NonceInv env s'.c := by
  rw [hq.conn.eq]
  exact h.congr rfl

theorem NonceInv.act (h : NonceInv env s.c) (ha : s.Act env W s') : NonceInv env s'.c := by
  cases ha with
  | quiet hq => exact h.quiet hq
  | fail why => exact h.fail why
  | send payload => exact h.sendPacket payload
  | cout staged => exact h
  | key b hst =>
      refine h.congr ?_
      simp [SshConn.outbound, Ssh.pushKey, Ssh.note, frames_cons, SshEvent.framed]
  | channel c' hc hopen =>
      refine h.congr ?_
      dsimp only
      rw [hc.eq]
  | winsize cols rows hW hst => exact h.congr rfl

theorem NonceInv.acts (h : NonceInv env s.c) (ha : s.Acts env W s') : NonceInv env s'.c :=
  Ssh.Acts.preserves (P := fun s => NonceInv env s.c) (fun _ _ h ha => h.act ha) ha h

/-! ## Packets -/

/-- Sending leaves the flags and the keys. -/
theorem sendPacket_flags (env : SshEnv) (s : Ssh) (payload : List UInt8) :
    (s.sendPacket env payload).c.sendEncrypted = s.c.sendEncrypted ∧
      (s.sendPacket env payload).c.keysReady = s.c.keysReady ∧
      (s.sendPacket env payload).c.sessionId = s.c.sessionId ∧
      (s.sendPacket env payload).c.ekS2c = s.c.ekS2c := by
  rw [(Sends.sendPacket env s payload).conn]
  exact ⟨rfl, rfl, rfl, rfl⟩

/-- The reply and `NEWKEYS` go out in plaintext; between them the key is derived. -/
theorem NonceInv.ecdhReply (h : NonceInv env s.c) (hplain : s.c.sendEncrypted = false)
    (hready : s.c.keysReady = false) (qC qS raw : List UInt8) :
    NonceInv env (Dossh.ecdhReply env s qC qS raw).c := by
  unfold Dossh.ecdhReply
  dsimp only
  generalize s.c.hctx ++ putStr (buildKsBlob env) ++ putStr qC ++ putStr qS ++ buildKmpint raw
    = hctx
  generalize env.crypto.sha256 hctx = hash
  generalize buildKmpint raw = k
  generalize (if s.c.haveSessionId = true then s.c.sessionId else hash) = sid
  generalize [MSG_KEX_ECDH_REPLY] ++ putStr (buildKsBlob env) ++ putStr qS ++
    putStr (putNl "ssh-ed25519" ++ putStr (env.crypto.ed25519Sign env.hostkeySk hash)) = reply
  have h₁ : NonceInv env ({ s with
      g := { s.g with kmpint := k, hash := hash }
      c := { s.c with hctx := hctx, sessionId := sid, haveSessionId := true } } : Ssh).c :=
    h.rekey hplain rfl rfl (fun henc => absurd (hplain.symm.trans henc) nofun)
      (fun hk => absurd (hready.symm.trans hk) nofun)
  have h₂ := h₁.sendPacket reply
  obtain ⟨hplain₂, -, hsid₂, -⟩ := sendPacket_flags env { s with
      g := { s.g with kmpint := k, hash := hash }
      c := { s.c with hctx := hctx, sessionId := sid, haveSessionId := true } } reply
  generalize Ssh.sendPacket env _ reply = s₂ at h₂ hplain₂ hsid₂ ⊢
  have hplain₂ : s₂.c.sendEncrypted = false := hplain₂.trans hplain
  generalize deriveKey env.crypto k hash s₂.c.sessionId 67 64 = ekC
  have h₃ : NonceInv env ({ s₂ with c := { s₂.c with
      ekC2s := ekC, ekS2c := deriveKey env.crypto k hash s₂.c.sessionId 68 64
      keysReady := true } } : Ssh).c :=
    h₂.rekey hplain₂ rfl rfl (fun _ => rfl) fun _ => ⟨k, hash, rfl⟩
  have h₄ := h₃.sendPacket [MSG_NEWKEYS]
  obtain ⟨hplain₄, hready₄, hsid₄, hek₄⟩ := sendPacket_flags env { s₂ with c := { s₂.c with
      ekC2s := ekC, ekS2c := deriveKey env.crypto k hash s₂.c.sessionId 68 64
      keysReady := true } } [MSG_NEWKEYS]
  generalize Ssh.sendPacket env _ [MSG_NEWKEYS] = s₄ at h₄ hplain₄ hready₄ hsid₄ hek₄ ⊢
  exact h₄.rekey (hplain₄.trans hplain₂) rfl rfl (fun _ => hready₄)
    fun _ => ⟨k, hash, hek₄.trans (by rw [← hsid₄])⟩

theorem Deed.nonceInv {pl : Payload} (hd : Deed env W pl s s') (hinv : TransportInv s.c)
    (h : NonceInv env s.c) : NonceInv env s'.c := by
  cases hd with
  | acts ha => exact h.acts ha
  | disconnect s₁ hq hs' =>
      rw [hs']
      exact (h.quiet hq).congr rfl
  | kexinit hst s₁ hq hmsg hneg hs' =>
      have hq' := hq.trans (negotiate_quiet env s₁ pl)
      rw [hs']
      generalize (negotiate env s₁ pl).2 = s₂ at *
      exact (h.quiet hq').congr rfl
  | ecdh hst s₁ hq hmsg hlen hqc raw hraw hgood hs' =>
      obtain ⟨hready, hplain⟩ := hinv.keyless (by rw [hst]; rfl)
      have hready₁ := congrArg SshConn.keysReady hq.conn.eq
      have hplain₁ := congrArg SshConn.sendEncrypted hq.conn.eq
      rw [hs']
      exact (h.quiet hq).ecdhReply (hplain₁.trans hplain) (hready₁.trans hready) _ _ _
  | newkeys hst hg hc =>
      rw [hc]
      exact h.congr rfl
  | service hst s₁ hq name hname hs' =>
      rw [hs']
      have hs := (h.quiet hq).sendPacket ([MSG_SERVICE_ACCEPT] ++ putStr name)
      generalize s₁.sendPacket env ([MSG_SERVICE_ACCEPT] ++ putStr name) = s₂ at *
      exact hs.congr rfl
  | rejected hst s₁ hq hs' =>
      rw [hs', sendDisconnect]
      exact ((h.quiet hq).sendPacket _).congr rfl
  | granted hst s₁ hq hs' =>
      rw [hs', sendUserauthSuccess]
      have hs := (h.quiet hq).sendPacket [MSG_USERAUTH_SUCCESS]
      generalize s₁.sendPacket env [MSG_USERAUTH_SUCCESS] = s₂ at *
      exact hs.congr rfl
  | closed hst s₁ hq s₂ hs₂ hs' =>
      have hclose : NonceInv env s₂.c := by
        rw [hs₂]
        split
        · exact (h.quiet hq).acts (W := W) (sshChannelClose_acts env s₁)
        · exact h.quiet hq
      rw [hs']
      exact hclose.congr rfl

theorem dispatch_nonceInv (hinv : TransportInv s.c) (h : NonceInv env s.c) (wire : List UInt8)
    (mem : Nat → UInt8) (n need : Nat) :
    NonceInv env ((s.dispatch env wire mem n).finish need).c := by
  have hd := dispatch_deed env True s wire mem n fun _ _ => trivial
  have hnote : NonceInv env (s.note (s.packetEvent wire (slice mem 0 n))).c := by
    refine h.congr ?_
    simp [SshConn.outbound, Ssh.note, frames_cons, packetEvent, SshEvent.framed]
  generalize s.dispatch env wire mem n = s₁ at hd ⊢
  have h₁ : NonceInv env s₁.c := hd.nonceInv (hinv.congr rfl) hnote
  exact h₁.congr rfl

theorem Turn.nonceInv {r : TryRes} (ht : Turn env s r s') (hinv : TransportInv s.c)
    (h : NonceInv env s.c) : NonceInv env s'.c := by
  cases ht with
  | waits => exact h
  | wild => exact h
  | fails s₁ hs₁ why =>
      rcases hs₁ with rfl | rfl
      · exact h.fail why
      · exact NonceInv.fail (s := { s with c := s.c.opened env }) (h.congr rfl) why
  | banner hst k hk => exact h.congr rfl
  | version hst k hk line => exact h.congr rfl
  | plain hst henc mem beyond n hib hlen hneed => exact dispatch_nonceInv hinv h _ _ _ _
  | opened hst henc hv beyond padlen hpad hle =>
      exact dispatch_nonceInv (s := { s with c := s.c.opened env }) (hinv.congr rfl)
        (h.congr rfl) _ _ _ _

/-! ## Runs -/

theorem SshReach.nonceInv (hreach : SshReach env s) : NonceInv env s.c := by
  have hfresh : NonceInv env SshConn.fresh :=
    ⟨[], [], rfl, by simp, by simp, rfl, rfl, fun _ => rfl, nofun, nofun⟩
  obtain ⟨g, ops, hrun⟩ := hreach
  have hreset : NonceInv env (sshReset env g).c := by
    obtain ⟨s₀, iS, hc, heq, -⟩ := sshReset_sends env g
    have h₀ : NonceInv env s₀.c := by
      rw [hc]
      exact hfresh.congr rfl
    rw [heq]
    exact h₀.sendUnenc (by rw [hc]; rfl) iS
  refine (sshRun_keeps (P := fun c => TransportInv c ∧ NonceInv env c) ?_ ?_ ?_ ?_ ops
    ⟨.reset env g, hreset⟩ hrun).2
  · rintro c data ⟨hi, h⟩
    exact ⟨hi.congr rfl, h.congr rfl⟩
  · rintro s₁ r s₂ ⟨hi, h⟩ - hturn
    exact ⟨(hturn.transportInv hi).1, hturn.nonceInv hi h⟩
  · rintro s₁ s₂ ⟨hi, h⟩ hacts
    exact ⟨hi.acts hacts, h.acts hacts⟩
  · rintro s₁ plain outmax ⟨hi, h⟩
    obtain ⟨s₂, hq, hs⟩ := sshChannelEmit_sends env s₁ plain outmax
    exact ⟨(hi.quiet hq).sends hs, h.emit plain outmax⟩

/-- Counts below the size of a word are different numbers. -/
theorem nodup_counts {k : Nat} (h : k ≤ 4294967296) :
    ((List.range k).map (BitVec.ofNat 32)).Nodup := by
  refine List.Nodup.map_on ?_ List.nodup_range
  intro a ha b hb heq
  rw [List.mem_range] at ha hb
  have hnat := congrArg BitVec.toNat heq
  rw [BitVec.toNat_ofNat, BitVec.toNat_ofNat, Nat.mod_eq_of_lt (by omega),
    Nat.mod_eq_of_lt (by omega)] at hnat
  exact hnat

/-- In every run of fewer than 2^32 packets the packets are numbered in the order in which they
are framed, the plaintext ones first.  So the sealed ones continue that count, no number comes
twice, and all are sealed with the key derived in the session. -/
theorem seal_numbers_fresh (hreach : SshReach env s)
    (hfew : (framesOf s.c.trace).length < 4294967296) :
    ∃ before after, framesOf s.c.trace = before ++ after ∧
      (∀ f ∈ before, f.encrypted = false) ∧
      (∀ f ∈ after, f.encrypted = true ∧ f.SealedWith env s.c.ekS2c) ∧
      (after ≠ [] → s.c.Derived env) ∧
      after.map Framed.seq =
        (List.range after.length).map (fun k => BitVec.ofNat 32 (before.length + k)) ∧
      (after.map Framed.seq).Nodup := by
  obtain ⟨before, after, h⟩ := hreach.nonceInv
  have hlen : before.length + after.length < 4294967296 := by
    rw [h.split, List.length_append] at hfew
    exact hfew
  have hseq := h.seq
  rw [List.map_append, List.range_add, List.map_append, List.map_map] at hseq
  have hafter := List.append_inj_right hseq (by simp)
  refine ⟨before, after, h.split, h.plain, h.sealed, fun hne => ?_, hafter, ?_⟩
  · refine h.derived (h.ready ?_)
    rw [← Bool.not_eq_false]
    exact fun hno => hne (h.none hno)
  · have hall := nodup_counts (Nat.le_of_lt hlen)
    rw [← h.seq, List.map_append] at hall
    exact hall.of_append_right

theorem seal_numbers_fresh_login : ∃ s, SshReach sampleEnv s ∧
    (framesOf s.c.trace).length = 5 ∧ ((framesOf s.c.trace).filter (·.encrypted)).map Framed.seq = [3, 4] ∧
      ∃ before after, framesOf s.c.trace = before ++ after ∧
        (∀ f ∈ after, f.encrypted = true ∧ f.SealedWith sampleEnv s.c.ekS2c) ∧
        (after.map Framed.seq).Nodup := by
  have hrun : (sampleRun loginChunks).map (fun s => ((framesOf s.c.trace).length,
      ((framesOf s.c.trace).filter (·.encrypted)).map Framed.seq)) = some (5, [3, 4]) := by
    decide +kernel
  obtain ⟨s, hs, hst⟩ := Option.map_eq_some_iff.mp hrun
  rw [Prod.mk.injEq] at hst
  have hreach : SshReach sampleEnv s := ⟨_, _, hs⟩
  obtain ⟨before, after, h, -, hsealed, -, -, hnodup⟩ :=
    seal_numbers_fresh hreach (by rw [hst.1]; decide)
  exact ⟨s, hreach, hst.1, hst.2, before, after, h, hsealed, hnodup⟩

end

end Dossh
