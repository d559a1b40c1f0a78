import Dossh.Ssh.Invariant
import Dossh.Ssh.RoundTrip

/-!
# The encrypted stream

The number of a packet is its nonce, and it also counts the packets before `NEWKEYS`, which
anyone on the way can add to or take from.  With a cipher under which only what the client sealed
under a number verifies, the payloads handled after `NEWKEYS` are a segment of what the client
sealed: in order, with nothing changed, repeated or left out in between.  Where the segment begins
depends on how many plaintext packets were handled.
-/

namespace Dossh

open Ssh

/-! ## Packets and clients -/

/-- A packet that was handled. -/
structure Packet where
  encrypted : Bool
  seq : BitVec 32
  wire : List UInt8
  payload : List UInt8
deriving DecidableEq, Repr

/-- The packets of a history, oldest first. -/
def packets (trace : List SshEvent) : List Packet :=
  (trace.filterMap fun
    | .packet _ encrypted seq _ wire payload => some ⟨encrypted, seq, wire, payload⟩
    | _ => none).reverse

/-- The payloads handled after `NEWKEYS`. -/
def openedPayloads (trace : List SshEvent) : List (List UInt8) :=
  ((packets trace).filter (·.encrypted)).map (·.payload)

/-- The number of packets handled up to and including `NEWKEYS`. -/
def plainCount (trace : List SshEvent) : Nat := ((packets trace).filter (!·.encrypted)).length

/-- What an honest client seals after its `NEWKEYS`, and the number of the first packet. -/
structure Client where
  first : BitVec 32
  sent : List Msg

/-- The frames of the client with their numbers. -/
def Client.frames (cl : Client) (cr : Crypto) (ek : List UInt8) :
    List (BitVec 32 × List UInt8) :=
  cl.sent.mapIdx fun j m => (cl.first + BitVec.ofNat 32 j,
    sealFrame cr ek (cl.first + BitVec.ofNat 32 j) m.payload m.pad)

instance (env : SshEnv) (c : SshConn) : Decidable (c.Verified env) :=
  decidable_of_iff (8 ≤ c.encLen env ∧ 4 + c.encLen env + 16 ≤ SSH_IB_SZ ∧
    4 + c.encLen env + 16 ≤ c.ib.length ∧
    env.crypto.poly1305 (c.ib.take (4 + c.encLen env))
        (env.crypto.polykey (c.ekC2s.take 32) (seqbuf8 c.recvSeq)) =
      (c.ib.drop (4 + c.encLen env)).take 16)
    ⟨fun ⟨hlen, hfits, hcomplete, htag⟩ => ⟨hlen, hfits, hcomplete, htag⟩,
      fun h => ⟨h.len, h.fits, h.complete, h.tag⟩⟩

/-- The tag of the packet is right under the key and the number of the packet. -/
def Packet.Verified (env : SshEnv) (ek : List UInt8) (p : Packet) : Prop :=
  ({ SshConn.fresh with ib := p.wire, ekC2s := ek, recvSeq := p.seq } : SshConn).Verified env

instance (env : SshEnv) (ek : List UInt8) (p : Packet) : Decidable (p.Verified env ek) :=
  inferInstanceAs (Decidable (SshConn.Verified env _))

/-- The cipher was ideal: of what the server got after `NEWKEYS`, only what the client sealed
under a number verifies under it. -/
def Ideal (env : SshEnv) (cl : Client) (c : SshConn) : Prop :=
  ∀ p ∈ packets c.trace, p.encrypted = true → p.Verified env c.ekC2s →
    (p.seq, p.wire) ∈ cl.frames env.crypto c.ekC2s

instance (env : SshEnv) (cl : Client) (c : SshConn) : Decidable (Ideal env cl c) :=
  inferInstanceAs (Decidable (∀ p ∈ packets c.trace, p.encrypted = true →
    p.Verified env c.ekC2s → (p.seq, p.wire) ∈ cl.frames env.crypto c.ekC2s))

/-! ## The invariant -/

/-- The payload is what a frame with that wire form opens to. -/
def Packet.Opens (env : SshEnv) (ek : List UInt8) (p : Packet) : Prop :=
  ∀ m : Msg, m.pad.length < 256 → p.wire = sealFrame env.crypto ek p.seq m.payload m.pad →
    p.payload = m.payload

/-- The packets of a connection are numbered in order, those before `NEWKEYS` first. -/
structure Numbered (env : SshEnv) (c : SshConn) (before after : List Packet) : Prop where
  split : packets c.trace = before ++ after
  plain : ∀ p ∈ before, p.encrypted = false
  sealed : ∀ p ∈ after, p.encrypted = true ∧ p.Verified env c.ekC2s ∧ p.Opens env c.ekC2s
  seq : ∀ k p, after[k]? = some p → p.seq = BitVec.ofNat 32 (before.length + k)
  next : c.recvSeq = BitVec.ofNat 32 (before.length + after.length)
  none : c.recvEncrypted = false → after = []
  ready : c.recvEncrypted = true → c.keysReady = true

/-- The packets of a connection. -/
def SeqInv (env : SshEnv) (c : SshConn) : Prop := ∃ before after, Numbered env c before after

section

variable {env : SshEnv} {W : Prop} {c c' : SshConn} {s s' : Ssh} {before after : List Packet}

theorem packets_append {es : List SshEvent} (hes : ∀ e ∈ es, e.inner = true)
    (trace : List SshEvent) : packets (es ++ trace) = packets trace := by
  induction es with
  | nil => rfl
  | cons e es ih =>
      have he := hes e List.mem_cons_self
      have hrest := ih fun e he => hes e (List.mem_cons_of_mem _ he)
      cases e with
      | packet => cases he
      | _ => exact hrest

/-- Between packets. -/
structure SshConn.Idle (c c' : SshConn) : Prop where
  trace : ∃ es, c'.trace = es ++ c.trace ∧ ∀ e ∈ es, e.inner = true
  recvSeq : c'.recvSeq = c.recvSeq
  recv : c'.recvEncrypted = c.recvEncrypted
  keys : c.keysReady = true → c'.keysReady = true ∧ c'.ekC2s = c.ekC2s

/-- There are sealed packets only if there are keys. -/
theorem Numbered.keysReady (h : Numbered env c before after) {p : Packet} (hp : p ∈ after) :
    c.keysReady = true := by
  refine h.ready ?_
  rw [← Bool.not_eq_false]
  intro hr
  rw [h.none hr] at hp
  cases hp

theorem SeqInv.idle (h : SeqInv env c) (hi : c.Idle c') : SeqInv env c' := by
  obtain ⟨before, after, h⟩ := h
  obtain ⟨es, htr, hes⟩ := hi.trace
  refine ⟨before, after, ?_, h.plain, fun p hp => ?_, h.seq, ?_, ?_, fun hr => ?_⟩
  · rw [htr, packets_append hes, h.split]
  · rw [(hi.keys (h.keysReady hp)).2]
    exact h.sealed p hp
  · rw [hi.recvSeq, h.next]
  · rw [hi.recv]
    exact h.none
  · rw [hi.recv] at hr
    exact (hi.keys (h.ready hr)).1

theorem SshConn.Idle.of_eq (htr : c'.trace = c.trace) (hseq : c'.recvSeq = c.recvSeq)
    (hrecv : c'.recvEncrypted = c.recvEncrypted) (hready : c'.keysReady = c.keysReady)
    (hek : c'.ekC2s = c.ekC2s) : c.Idle c' :=
  ⟨⟨[], htr, by simp⟩, hseq, hrecv, fun hk => ⟨by rw [hready, hk], hek⟩⟩

theorem SshConn.Idle.trans {c'' : SshConn} (h : c.Idle c') (h' : c'.Idle c'') : c.Idle c'' := by
  obtain ⟨es, htr, hes⟩ := h.trace
  obtain ⟨es', htr', hes'⟩ := h'.trace
  refine ⟨⟨es' ++ es, by rw [htr', htr, List.append_assoc], fun e he => ?_⟩,
    h'.recvSeq.trans h.recvSeq, h'.recv.trans h.recv, fun hk => ?_⟩
  · rcases List.mem_append.mp he with he' | he'
    · exact hes' e he'
    · exact hes e he'
  · obtain ⟨hk', hek⟩ := h.keys hk
    obtain ⟨hk'', hek'⟩ := h'.keys hk'
    exact ⟨hk'', hek'.trans hek⟩

theorem SshConn.Idle.quiet (h : s.Quiet s') : s.c.Idle s'.c := by
  have hc := h.conn.eq
  refine .of_eq ?_ ?_ ?_ ?_ ?_
  all_goals rw [hc]

theorem SshConn.Idle.sends (h : s.Sends s') : s.c.Idle s'.c := by
  have hc := h.conn
  obtain ⟨es, htr, hes⟩ := h.logs
  refine ⟨⟨es, htr, fun e he => ?_⟩, by rw [hc], by rw [hc], fun hk => ?_⟩
  · obtain ⟨seq, payload, bytes, rfl⟩ := hes e he
    rfl
  · rw [hc]
    exact ⟨hk, rfl⟩

theorem SshConn.Idle.act (h : s.Act env W s') : s.c.Idle s'.c := by
  cases h with
  | quiet h => exact .quiet h
  | fail why => exact .sends (.fail s why)
  | send payload => exact .sends (.sendPacket env s payload)
  | cout staged => exact .of_eq rfl rfl rfl rfl rfl
  | key b hst => exact ⟨⟨[.key b], rfl, by simp [SshEvent.inner]⟩, rfl, rfl, fun hk => ⟨hk, rfl⟩⟩
  | channel c' h hopen =>
      have hc := h.eq
      refine .of_eq ?_ ?_ ?_ ?_ ?_
      all_goals
        dsimp only
        rw [hc]
  | winsize cols rows hW hst => exact .of_eq rfl rfl rfl rfl rfl

theorem SeqInv.acts (h : SeqInv env s.c) (ha : s.Acts env W s') : SeqInv env s'.c :=
  Ssh.Acts.preserves (P := fun s => SeqInv env s.c) (fun _ _ h ha => h.idle (.act ha)) ha h

/-! ## Packets and turns -/

/-- The record of a packet. -/
def Ssh.packet (s : Ssh) (wire payload : List UInt8) : Packet :=
  ⟨s.c.recvEncrypted, s.c.recvSeq, wire, payload⟩

theorem packets_note (s : Ssh) (wire payload : List UInt8) :
    packets (s.note (s.packetEvent wire payload)).c.trace =
      packets s.c.trace ++ [s.packet wire payload] := by
  simp [packets, Ssh.note, packetEvent, Ssh.packet]

/-- One more packet, and whatever its handler did. -/
theorem Numbered.packet (h : Numbered env s.c before after) {wire payload : List UInt8}
    (hopens : s.c.recvEncrypted = true →
      (s.packet wire payload).Verified env s.c.ekC2s ∧ (s.packet wire payload).Opens env s.c.ekC2s)
    (htr : packets c'.trace = packets s.c.trace ++ [s.packet wire payload])
    (hseq : c'.recvSeq = s.c.recvSeq + 1)
    (hrecv : s.c.recvEncrypted = true → c'.recvEncrypted = true)
    (hready : c'.recvEncrypted = true → c'.keysReady = true)
    (hkeys : s.c.keysReady = true → c'.ekC2s = s.c.ekC2s) : SeqInv env c' := by
  have hone : BitVec.ofNat 32 (before.length + after.length) + 1 =
      BitVec.ofNat 32 (before.length + after.length + 1) := (BitVec.ofNat_add _ _).symm
  rcases hr : s.c.recvEncrypted with _ | _
  · -- a plaintext packet: none was sealed before
    have hnone := h.none hr
    subst hnone
    refine ⟨before ++ [s.packet wire payload], [], ?_, ?_, by simp, by simp, ?_, fun _ => rfl, hready⟩
    · rw [htr, h.split, List.append_nil, List.append_nil]
    · intro p hp
      rcases List.mem_append.mp hp with hp | hp
      · exact h.plain p hp
      · rw [List.mem_singleton.mp hp]
        exact hr
    · rw [hseq, h.next, hone]
      simp
  · refine ⟨before, after ++ [s.packet wire payload], ?_, h.plain, ?_, ?_, ?_, ?_, hready⟩
    · rw [htr, h.split, List.append_assoc]
    · rw [hkeys (h.ready hr)]
      intro p hp
      rcases List.mem_append.mp hp with hp | hp
      · exact h.sealed p hp
      · rw [List.mem_singleton.mp hp]
        exact ⟨hr, hopens hr⟩
    · intro k p hk
      rcases Nat.lt_or_ge k after.length with hlt | hge
      · rw [List.getElem?_append_left hlt] at hk
        exact h.seq k p hk
      · rw [List.getElem?_append_right hge, List.getElem?_singleton] at hk
        split at hk
        next h0 =>
          cases hk
          have hk : k = after.length := by omega
          rw [hk]
          exact h.next
        next => cases hk
    · rw [hseq, h.next, hone, List.length_append, List.length_singleton, Nat.add_assoc]
    · intro hr'
      rw [hrecv hr] at hr'
      cases hr'

/-- Decryption is switched on by `NEWKEYS` alone. -/
theorem Handled.recv {pl : Payload} (h : Handled env pl s s')
    (hst : s.c.state ≠ .expectClientNewkeys) : s'.c.recvEncrypted = s.c.recvEncrypted := by
  have hcore : s'.c.core = s.c.core → s'.c.recvEncrypted = s.c.recvEncrypted := by
    intro hc
    simp only [SshConn.core, Prod.mk.injEq] at hc
    exact hc.2.2.1
  cases h with
  | tame h => exact hcore h.core
  | kexinit _ h hk hst' => exact hcore h.core
  | ecdh _ h hst' => exact hcore h.core
  | newkeys hst' h => exact absurd hst' hst
  | service _ h hk hst' => exact hcore h.core
  | granted _ h hg =>
      obtain ⟨s₁, htame, hc⟩ := h
      have hcore₁ := htame.core
      simp only [SshConn.core, Prod.mk.injEq] at hcore₁
      rw [hc]
      exact hcore₁.2.2.1
  | session _ h => exact hcore h.core

theorem dispatch_seqInv (hinv : TransportInv s.c) (h : SeqInv env s.c) (wire : List UInt8)
    (mem : Nat → UInt8) (n need : Nat)
    (hopens : s.c.recvEncrypted = true → (s.packet wire (slice mem 0 n)).Verified env s.c.ekC2s ∧
      (s.packet wire (slice mem 0 n)).Opens env s.c.ekC2s) :
    SeqInv env ((s.dispatch env wire mem n).finish need).c := by
  obtain ⟨before, after, h⟩ := h
  have hhandled := dispatch_handled env s wire mem n
  have hinv' : TransportInv (s.note (s.packetEvent wire (slice mem 0 n))).c := hinv.congr rfl
  have hgrows := (dispatch_deed env True s wire mem n fun _ _ => trivial).grows hinv'
  generalize s.dispatch env wire mem n = s₁ at hhandled hgrows ⊢
  obtain ⟨es, htr, hes⟩ := hhandled.logs
  have hinput : s₁.c.recvSeq = s.c.recvSeq := hhandled.input.2
  refine h.packet hopens ?_ ?_ ?_ ?_ ?_
  · change packets s₁.c.trace = _
    rw [htr, packets_append hes, packets_note]
  · change s₁.c.recvSeq + 1 = _
    rw [hinput]
  · exact hgrows.recv
  · intro hr
    rcases Classical.em (s.c.state = .expectClientNewkeys) with hst | hst
    · exact (hgrows.keys (hinv.newkeys hst).2.1).1
    · have hr' := hhandled.recv hst
      exact (hgrows.keys (h.ready (hr'.symm.trans hr))).1
  · intro hk
    have hsec := (hgrows.keys hk).2
    simp only [SshConn.secrets, Prod.mk.injEq] at hsec
    exact hsec.2.1

/-- The tag of an accepted packet is right: only what is taken of the buffer counts. -/
theorem opened_verified (hv : s.c.Verified env) (payload : List UInt8) :
    (({ s with c := s.c.opened env } : Ssh).packet (s.c.ib.take (4 + s.c.encLen env + 16))
      payload).Verified env (s.c.opened env).ekC2s := by
  generalize hframe : s.c.ib.take (4 + s.c.encLen env + 16) = frame
  have hlen : frame.length = 4 + s.c.encLen env + 16 := by
    rw [← hframe, List.length_take, Nat.min_eq_left hv.complete]
  have htake : ∀ k ≤ 4 + s.c.encLen env + 16, frame.take k = s.c.ib.take k := by
    intro k hk
    rw [← hframe, List.take_take, Nat.min_eq_left hk]
  have hencLen : ({ SshConn.fresh with ib := frame, ekC2s := s.c.ekC2s, recvSeq := s.c.recvSeq } :
      SshConn).encLen env = s.c.encLen env := by
    unfold SshConn.encLen
    rw [htake 4 (by omega)]
  change SshConn.Verified env
    { SshConn.fresh with ib := frame, ekC2s := s.c.ekC2s, recvSeq := s.c.recvSeq }
  constructor
  all_goals rw [hencLen]
  · exact hv.len
  · exact hv.fits
  · exact hlen.ge
  · dsimp only
    rw [htake _ (by omega), hv.tag, ← hframe, List.drop_take, List.take_take]
    congr 1
    omega

/-- The payload of an accepted packet is the one that was sealed. -/
theorem opened_opens (hv : s.c.Verified env) (beyond : Nat → UInt8) {padlen : Nat}
    (hpad : padlen = ((s.c.opened env).mem beyond 4).toNat) :
    (({ s with c := s.c.opened env } : Ssh).packet (s.c.ib.take (4 + s.c.encLen env + 16))
      (slice (fun k => (s.c.opened env).mem beyond (5 + k)) 0 (s.c.encLen env - 1 - padlen))).Opens
        env (s.c.opened env).ekC2s := by
  intro m hm hwire
  have hwire : s.c.ib.take (4 + s.c.encLen env + 16) =
      sealFrame env.crypto s.c.ekC2s s.c.recvSeq m.payload m.pad := hwire
  have hib : s.c.ib = sealFrame env.crypto s.c.ekC2s s.c.recvSeq m.payload m.pad ++
      s.c.ib.drop (4 + s.c.encLen env + 16) := by
    rw [← hwire, List.take_append_drop]
  have hl : m.len = 1 + m.payload.length + m.pad.length := rfl
  have hlen : m.len < 65536 := by
    have hsz : SSH_IB_SZ = 2048 := rfl
    have hframe := congrArg List.length hwire
    rw [List.length_take, length_sealFrame] at hframe
    have hfits := hv.fits
    have hcomplete := hv.complete
    omega
  obtain ⟨hfield, hpadlen, hpayload, -⟩ := opened_frame beyond hm hlen hib
  have hn : s.c.encLen env - 1 - padlen = m.payload.length := by
    rw [hpad, hpadlen, hfield]
    omega
  change slice (fun k => (s.c.opened env).mem beyond (5 + k)) 0 _ = m.payload
  rw [hn, slice_shift, hpayload]

theorem Turn.seqInv {r : TryRes} (hinv : TransportInv s.c) (h : SeqInv env s.c)
    (ht : Turn env s r s') : SeqInv env s'.c := by
  cases ht with
  | waits => exact h
  | wild => exact h
  | fails s₁ hs₁ why =>
      rcases hs₁ with rfl | rfl
      · exact h.idle (.sends (.fail _ why))
      · have ho : s.c.Idle (s.c.opened env) := .of_eq rfl rfl rfl rfl rfl
        exact h.idle (ho.trans (SshConn.Idle.sends (.fail { s with c := s.c.opened env } why)))
  | banner hst k hk => exact h.idle (.of_eq rfl rfl rfl rfl rfl)
  | version hst k hk line => exact h.idle (.of_eq rfl rfl rfl rfl rfl)
  | plain hst henc mem beyond n hib hlen hneed =>
      refine dispatch_seqInv hinv h _ _ _ _ fun hr => ?_
      rw [henc] at hr
      cases hr
  | opened hst henc hv beyond padlen hpad hle =>
      have ho : s.c.Idle (s.c.opened env) := .of_eq rfl rfl rfl rfl rfl
      exact dispatch_seqInv (s := { s with c := s.c.opened env }) (hinv.congr rfl) (h.idle ho) _ _ _ _
        fun _ => ⟨opened_verified hv _, opened_opens hv beyond hpad⟩

theorem SshReach.seqInv (h : SshReach env s) : SeqInv env s.c := by
  have hfresh : SeqInv env SshConn.fresh :=
    ⟨[], [], rfl, by simp, by simp, by simp, rfl, fun _ => rfl, nofun⟩
  obtain ⟨g, ops, hrun⟩ := h
  have hreset : SeqInv env (sshReset env g).c := by
    obtain ⟨s₀, iS, hc, -, hs⟩ := sshReset_sends env g
    refine SeqInv.idle ?_ (.sends hs)
    rw [hc]
    exact hfresh.idle (.of_eq rfl rfl rfl rfl rfl)
  refine (sshRun_keeps (P := fun c => TransportInv c ∧ SeqInv env c) ?_ ?_ ?_ ?_ ops
    ⟨.reset env g, hreset⟩ hrun).2
  · rintro c data ⟨hi, hq⟩
    exact ⟨hi.congr rfl, hq.idle (.of_eq rfl rfl rfl rfl rfl)⟩
  · rintro s₁ r s₂ ⟨hi, hq⟩ - hturn
    exact ⟨(hturn.transportInv hi).1, hturn.seqInv hi hq⟩
  · rintro s₁ s₂ ⟨hi, hq⟩ hacts
    exact ⟨hi.acts hacts, hq.acts hacts⟩
  · rintro s₁ plain outmax ⟨hi, hq⟩
    obtain ⟨s₂, hquiet, hs⟩ := sshChannelEmit_sends env s₁ plain outmax
    exact ⟨(hi.quiet hquiet).sends hs, (hq.idle (.quiet hquiet)).idle (.sends hs)⟩

/-! ## The stream -/

theorem Numbered.opened (h : Numbered env c before after) :
    openedPayloads c.trace = after.map (·.payload) := by
  have hb : before.filter (·.encrypted) = [] := by
    rw [List.filter_eq_nil_iff]
    intro p hp
    rw [h.plain p hp]
    decide
  have ha : after.filter (·.encrypted) = after := by
    rw [List.filter_eq_self]
    exact fun p hp => (h.sealed p hp).1
  rw [openedPayloads, h.split, List.filter_append, hb, ha, List.nil_append]

theorem Numbered.plainCount (h : Numbered env c before after) :
    plainCount c.trace = before.length := by
  have hb : before.filter (!·.encrypted) = before := by
    rw [List.filter_eq_self]
    intro p hp
    rw [h.plain p hp]
    rfl
  have ha : after.filter (!·.encrypted) = [] := by
    rw [List.filter_eq_nil_iff]
    intro p hp
    rw [(h.sealed p hp).1]
    decide
  rw [Dossh.plainCount, h.split, List.filter_append, hb, ha, List.append_nil]

/-- Each packet is one the client sealed, under the same number. -/
theorem Numbered.sent (h : Numbered env c before after) {cl : Client}
    (hpad : ∀ m ∈ cl.sent, m.pad.length < 256) (hideal : Ideal env cl c) {k : Nat} {p : Packet}
    (hk : after[k]? = some p) : ∃ j m, cl.sent[j]? = some m ∧ p.payload = m.payload ∧
      BitVec.ofNat 32 (before.length + k) = cl.first + BitVec.ofNat 32 j := by
  have hmem : p ∈ after := List.mem_of_getElem? hk
  obtain ⟨henc, hverified, hopens⟩ := h.sealed p hmem
  have hframe := hideal p (by rw [h.split]; exact List.mem_append_right _ hmem) henc hverified
  rw [Client.frames, List.mem_mapIdx] at hframe
  obtain ⟨j, hj, heq⟩ := hframe
  simp only [Prod.mk.injEq] at heq
  obtain ⟨hseq, hwire⟩ := heq
  refine ⟨j, cl.sent[j], List.getElem?_eq_getElem hj, hopens _ (hpad _ (List.getElem_mem hj)) ?_, ?_⟩
  · rw [← hwire, hseq]
  · rw [← h.seq k p hk, hseq]

/-- The packets are consecutive: the count of the client does not wrap. -/
theorem Numbered.segment (h : Numbered env c before after) {cl : Client}
    (hpad : ∀ m ∈ cl.sent, m.pad.length < 256) (hfew : cl.sent.length < 4294967296)
    (hideal : Ideal env cl c) {d : Nat}
    (hd : d = (BitVec.ofNat 32 before.length - cl.first).toNat) :
    ∀ k p, after[k]? = some p → ∃ m, cl.sent[d + k]? = some m ∧ p.payload = m.payload := by
  have hindex : ∀ k p, after[k]? = some p → ∃ j m, cl.sent[j]? = some m ∧
      p.payload = m.payload ∧ j = (d + k) % 4294967296 := by
    intro k p hk
    obtain ⟨j, m, hm, hpl, hnum⟩ := h.sent hpad hideal hk
    refine ⟨j, m, hm, hpl, ?_⟩
    have hj : j < cl.sent.length := (List.getElem?_eq_some_iff.mp hm).1
    have hnat := congrArg BitVec.toNat hnum
    simp only [BitVec.toNat_ofNat, BitVec.toNat_add] at hnat
    rw [BitVec.toNat_sub, BitVec.toNat_ofNat] at hd
    have hfirst := cl.first.isLt
    omega
  have hnowrap : ∀ k p, after[k]? = some p → d + k < 4294967296 := by
    intro k
    induction k with
    | zero =>
        intro p _
        rw [hd]
        exact BitVec.isLt _
    | succ k ih =>
        intro p hk
        have hlt : k < after.length := by
          have := (List.getElem?_eq_some_iff.mp hk).1
          omega
        have hk' := List.getElem?_eq_getElem hlt
        obtain ⟨j, m, hm, -, hj⟩ := hindex k _ hk'
        have hjlt : j < cl.sent.length := (List.getElem?_eq_some_iff.mp hm).1
        have := ih _ hk'
        omega
  intro k p hk
  obtain ⟨j, m, hm, hpl, hj⟩ := hindex k p hk
  rw [Nat.mod_eq_of_lt (hnowrap k p hk)] at hj
  exact ⟨m, by rw [← hj, hm], hpl⟩

end

/-- Against a cipher under which only what the client sealed under a number verifies, the
payloads handled after `NEWKEYS` are consecutive payloads of the client, in its order and
unchanged, from the packet on whose number the server counts next.  They are a prefix if the
server handled as many packets before as the client sent. -/
theorem sealed_stream_segment {env : SshEnv} {s : Ssh} (hreach : SshReach env s) (cl : Client)
    (hpad : ∀ m ∈ cl.sent, m.pad.length < 256) (hfew : cl.sent.length < 4294967296)
    (hideal : Ideal env cl s.c) :
    openedPayloads s.c.trace =
      ((cl.sent.map (·.payload)).drop
        (BitVec.ofNat 32 (plainCount s.c.trace) - cl.first).toNat).take
          (openedPayloads s.c.trace).length ∧
    (BitVec.ofNat 32 (plainCount s.c.trace) = cl.first →
      openedPayloads s.c.trace <+: cl.sent.map (·.payload)) := by
  obtain ⟨before, after, h⟩ := hreach.seqInv
  have hseg := h.segment hpad hfew hideal rfl
  rw [h.opened, h.plainCount]
  generalize hd : (BitVec.ofNat 32 before.length - cl.first).toNat = d at hseg ⊢
  have hlist : after.map (·.payload) =
      ((cl.sent.map (·.payload)).drop d).take (after.map (·.payload)).length := by
    apply List.ext_getElem?
    intro k
    rw [List.getElem?_take, List.length_map, List.getElem?_drop]
    rcases Nat.lt_or_ge k after.length with hlt | hge
    · have hk := List.getElem?_eq_getElem hlt
      obtain ⟨m, hm, hpl⟩ := hseg k _ hk
      rw [if_pos hlt, List.getElem?_map, List.getElem?_map, hk, hm, Option.map_some, Option.map_some,
        hpl]
    · rw [if_neg (by omega), List.getElem?_eq_none (by rw [List.length_map]; exact hge)]
  refine ⟨hlist, fun hsame => ?_⟩
  rw [hsame, BitVec.sub_self] at hd
  rw [hlist, ← hd]
  exact List.take_prefix _ _

/-- A client that seals an extension info and a service request. -/
def extInfoClient : Client :=
  ⟨3, [⟨[7, 0, 0, 0, 0], List.replicate (padLen 6) 0⟩,
    ⟨[MSG_SERVICE_REQUEST] ++ putNl "ssh-userauth", List.replicate (padLen 18) 0⟩]⟩

/-- Its handshake with an `IGNORE` put in and its first sealed packet taken out. -/
def truncatedChunks : List (List UInt8) :=
  [greeting [ourKexinit (List.replicate 16 4), [MSG_IGNORE, 0, 0, 0, 0],
      [MSG_KEX_ECDH_INIT] ++ putStr (List.replicate 32 8), [MSG_NEWKEYS]],
    sealedFrame 4 ([MSG_SERVICE_REQUEST] ++ putNl "ssh-userauth")]

theorem sealed_stream_segment_truncated : ∃ s, SshReach sampleEnv s ∧
    Ideal sampleEnv extInfoClient s.c ∧ plainCount s.c.trace = 4 ∧
    openedPayloads s.c.trace = ((extInfoClient.sent.map (·.payload)).drop 1).take
      (openedPayloads s.c.trace).length := by
  have hrun : (sampleRun truncatedChunks).map (fun s => (decide (Ideal sampleEnv extInfoClient s.c),
      plainCount s.c.trace)) = some (true, 4) := by decide +kernel
  obtain ⟨s, hs, hf⟩ := Option.map_eq_some_iff.mp hrun
  simp only [Prod.mk.injEq, decide_eq_true_eq] at hf
  have hreach : SshReach sampleEnv s := ⟨_, _, hs⟩
  have hseg := (sealed_stream_segment hreach extInfoClient (by decide) (by decide) hf.1).1
  rw [hf.2] at hseg
  exact ⟨s, hreach, hf.1, hf.2, hseg⟩

/-- The exchange hash is that of the undisturbed handshake, and yet the first sealed packet is
missing from what is handled. -/
theorem truncation_undetected : ∃ s s', SshReach sampleEnv s ∧
    sampleRun [greeting sampleKex] = some s' ∧ s.c.sessionId = s'.c.sessionId ∧
    Ideal sampleEnv extInfoClient s.c ∧
    ¬ openedPayloads s.c.trace <+: extInfoClient.sent.map (·.payload) := by
  have hhonest : (sampleRun [greeting sampleKex]).isSome = true := by decide +kernel
  obtain ⟨s', hs'⟩ := Option.isSome_iff_exists.mp hhonest
  have hrun : (sampleRun truncatedChunks).map (fun s => (
      some s.c.sessionId = (sampleRun [greeting sampleKex]).map (·.c.sessionId) : Bool) &&
      decide (Ideal sampleEnv extInfoClient s.c) &&
      !(openedPayloads s.c.trace).isPrefixOf (extInfoClient.sent.map (·.payload))) =
      some true := by decide +kernel
  obtain ⟨s, hs, hf⟩ := Option.map_eq_some_iff.mp hrun
  rw [hs'] at hf
  simp only [Option.map_some, Option.some.injEq, Bool.and_eq_true, decide_eq_true_eq,
    Bool.not_eq_true'] at hf
  refine ⟨s, s', ⟨_, _, hs⟩, hs', hf.1.1, hf.1.2, ?_⟩
  rw [← List.isPrefixOf_iff_prefix, hf.2]
  decide

end Dossh
