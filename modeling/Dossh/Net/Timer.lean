import Dossh.Net.Send
import Dossh.Lib.Serial

/-!
# Acknowledgements and the retransmit timer

`tcp_timer` rolls `snd_nxt` back to `snd_una`, and two tests compare against the
rolled-back value: whether an acknowledgement is accepted, and whether the timer
is armed.  `Conn.high` is how much of the sequence space past `snd_una` has been
transmitted, whatever `snd_nxt` says afterwards, and `SeqOk` relates the two in
every state of the stack.

In `ESTAB` the output that ends every `net_poll` sends the rolled-back bytes
again, so `snd_nxt` returns to its place.  In `SYNRCVD` nothing does: the
retransmitted SYN|ACK leaves `snd_nxt` where it is.
-/

namespace Dossh

variable {n : Nat} {S : Fin n → Conn → Prop} {T : Prop}

/-! ## The sequence space past `snd_una` -/

/-- How far `snd_nxt` lies ahead of `snd_una`. -/
def Conn.sent (c : Conn) : Nat := (c.sndNxt - c.sndUna).toNat

/-- How far the transmitted sequence space reaches past `snd_una`. -/
def Conn.high (c : Conn) : Nat := (c.sndMax - c.sndUna).toNat

/-- The acknowledgement number covers transmitted and unacknowledged sequence
space. -/
def Conn.outstanding (c : Conn) (ack : BitVec 32) : Prop :=
  0 < (ack - c.sndUna).toInt ∧ (ack - c.sndMax).toInt ≤ 0

/-- The timer of the slot runs. -/
def Conn.armed (c : Conn) : Prop := 0 < (c.sndNxt - c.sndUna).toInt

/-- The ring of an established connection holds what was sent and what was not. -/
theorem SlotSend.sent_add_unsent {i : Fin n} {c : Conn} {log : List (NetEvent n)}
    (h : SlotSend i c log) (hst : c.tstate = .estab) :
    c.sent + c.unsent = c.used ∧ c.used < SND_SZ := by
  obtain ⟨b, una, nxt, he⟩ := h.estab hst
  have hw := he.window
  have hle := hw.una_le
  have hnl := hw.nxt_le
  have hroom := hw.room
  have hsent : c.sent = nxt - una := by
    have hbase : (b + BitVec.ofNat 32 una - (b + BitVec.ofNat 32 una)).toNat = 0 := by simp
    have hpos : c.sndNxt = b + BitVec.ofNat 32 una + BitVec.ofNat 32 (nxt - una) := by
      rw [he.sndNxt, BitVec.add_assoc, ← BitVec.ofNat_add]
      congr 2
      omega
    unfold SND_SZ at hroom
    rw [Conn.sent, hpos, he.sndUna, Serial.toNat_add_sub (by rw [hbase]; omega), hbase]
    omega
  rw [hsent, hw.unsent_eq, hw.used_eq]
  omega

theorem acceptsAck_iff {c : Conn} {ack : BitVec 32} (h : c.sent < SND_SZ) :
    c.acceptsAck ack = true ↔ 0 < (ack - c.sndUna).toNat ∧ (ack - c.sndUna).toNat ≤ c.sent := by
  unfold SND_SZ at h
  simp only [Conn.acceptsAck, Bool.and_eq_true, decide_eq_true_eq]
  exact Serial.between_iff (by unfold Conn.sent at h; omega)

theorem outstanding_iff {c : Conn} {ack : BitVec 32} (h : c.high < SND_SZ) :
    c.outstanding ack ↔ 0 < (ack - c.sndUna).toNat ∧ (ack - c.sndUna).toNat ≤ c.high := by
  unfold SND_SZ at h
  exact Serial.between_iff (by unfold Conn.high at h; omega)

/-- The invariant that relates `snd_nxt` to the transmitted sequence space. -/
structure SeqOk (c : Conn) : Prop where
  synrcvd : c.tstate = .synrcvd → c.sndMax = c.sndUna + 1 ∧
    (c.sndNxt = c.sndUna + 1 ∧ c.rexmitCount = 0 ∨ c.sndNxt = c.sndUna ∧ c.rexmitCount = 1)
  estab : c.tstate = .estab → c.sent ≤ c.high ∧ c.high ≤ max 1 c.used

/-- No rolled-back byte waits for its retransmission.  The second case is a
connection that was established by an acknowledgement of `ISS` after the SYN|ACK
had been sent again. -/
def Conn.settled (c : Conn) : Prop :=
  c.tstate ≠ .listen → c.sndNxt = c.sndMax ∨ (c.sndNxt = c.sndUna ∧ c.sndMax = c.sndUna + 1)

theorem SeqOk.listen {c : Conn} (h : c.tstate = .listen) : SeqOk c :=
  ⟨(fun hs => by rw [h] at hs; cases hs), (fun hs => by rw [h] at hs; cases hs)⟩

/-- `SeqOk` only reads the sequence numbers, the counter and the ring's ends. -/
theorem SeqOk.congr {c c' : Conn} (h : SeqOk c) (hst : c'.tstate = c.tstate)
    (huna : c'.sndUna = c.sndUna) (hnxt : c'.sndNxt = c.sndNxt) (hmax : c'.sndMax = c.sndMax)
    (hcnt : c'.rexmitCount = c.rexmitCount) (hused : c.used ≤ c'.used) : SeqOk c' := by
  refine ⟨fun hs => ?_, fun hs => ?_⟩
  · rw [huna, hnxt, hmax, hcnt]
    exact h.synrcvd (hst ▸ hs)
  · obtain ⟨h1, h2⟩ := h.estab (hst ▸ hs)
    have hsent : c'.sent = c.sent := by rw [Conn.sent, hnxt, huna, Conn.sent]
    have hhigh : c'.high = c.high := by rw [Conn.high, hmax, huna, Conn.high]
    rw [hsent, hhigh]
    exact ⟨h1, h2.trans (max_le_max_left 1 hused)⟩

/-- What an accepted acknowledgement does to the distances. -/
theorem tcpInAck_accepted (now : BitVec 32) {c : Conn} {h : TcpHdr}
    (hacc : (hasFlag h.flags 0x10 && c.acceptsAck h.ack) = true)
    (hsum : c.sent + c.unsent = c.used ∧ c.used < SND_SZ) :
    (tcpInAck now h c).sent = c.sent - (h.ack - c.sndUna).toNat ∧
      (tcpInAck now h c).used = c.used - (h.ack - c.sndUna).toNat ∧
      (h.ack - c.sndUna).toNat ≤ c.sent := by
  rw [Bool.and_eq_true] at hacc
  obtain ⟨hpos, hle⟩ := (acceptsAck_iff (by omega)).mp hacc.2
  rw [tcpInAck, if_pos (by rw [Bool.and_eq_true]; exact hacc)]
  refine ⟨Serial.toNat_sub_sub hle, ?_, hle⟩
  have hsmall : (h.ack - c.sndUna).toNat % 65536 = (h.ack - c.sndUna).toNat :=
    Nat.mod_eq_of_lt (by unfold SND_SZ at hsum; omega)
  show Ring.dist SND_SZ c.sEnd ((c.sUna + (h.ack - c.sndUna).toNat % 65536) % SND_SZ) = _
  rw [hsmall]
  exact Ring.dist_add (by decide) (by show _ ≤ c.used; omega)

/-- The later of two sequence numbers is the one farther from a base behind both. -/
theorem serialMax_sub {u a b : BitVec 32} (ha : (a - u).toNat < 2 ^ 31)
    (hb : (b - u).toNat < 2 ^ 31) :
    (serialMax a b - u).toNat = max (a - u).toNat (b - u).toNat := by
  have hle := Serial.toInt_sub_le ha hb
  unfold serialMax
  split <;> omega

theorem ringAppend_used {c : Conn} (hroom : c.used < SND_SZ - 1) (b : UInt8) :
    c.used ≤ ({ c with
      sbuf := Function.update c.sbuf c.sEnd b, sEnd := (c.sEnd + 1) % SND_SZ } : Conn).used := by
  show Ring.dist SND_SZ c.sEnd c.sUna ≤ Ring.dist SND_SZ ((c.sEnd + 1) % SND_SZ) c.sUna
  unfold Conn.used at hroom
  rw [Ring.dist_succ (by omega)]
  exact Nat.le_succ _

/-- Every step of a slot keeps the invariant. -/
theorem SeqOk.step {i : Fin n} {c c' : Conn} (h : SeqOk c)
    (hsum : c.tstate = .estab → c.sent + c.unsent = c.used ∧ c.used < SND_SZ)
    (hs : Conn.Step S T i c c') : SeqOk c' := by
  cases hs with
  | refl => exact h
  | reset => exact .listen rfl
  | syn now hd hs => exact ⟨(fun _ => ⟨rfl, .inl ⟨rfl, rfl⟩⟩), (fun hs => by cases hs)⟩
  | estab hst =>
      refine ⟨(fun hs => by cases hs), fun _ => ?_⟩
      obtain ⟨hmax, hcase⟩ := h.synrcvd hst
      have hsent : (c.sndNxt - c.sndNxt).toNat = 0 := by simp
      have hhigh : (c.sndMax - c.sndNxt).toNat ≤ 1 := by
        rcases hcase with ⟨hn, _⟩ | ⟨hn, _⟩ <;> rw [hmax, hn]
        · simp
        · have heq : c.sndUna + 1 - c.sndUna = 1 := by bv_omega
          rw [heq]
          decide
      exact ⟨by show (c.sndNxt - c.sndNxt).toNat ≤ _; omega, hhigh.trans (le_max_left _ _)⟩
  | ack now hd hst =>
      by_cases hacc : (hasFlag hd.flags 0x10 && c.acceptsAck hd.ack) = true
      · obtain ⟨hsent, hused, hle⟩ := tcpInAck_accepted now hacc (hsum hst)
        obtain ⟨h1, h2⟩ := h.estab hst
        have hhigh : (tcpInAck now hd c).high = c.high - (hd.ack - c.sndUna).toNat := by
          rw [tcpInAck, if_pos hacc]
          exact Serial.toNat_sub_sub (hle.trans h1)
        refine ⟨(fun hs => by rw [tcpInAck_tstate, hst] at hs; cases hs), fun _ => ?_⟩
        rw [hsent, hused, hhigh]
        have := hsum hst
        omega
      · rw [tcpInAck, if_neg hacc]
        exact h
  | store c' hst hc => rw [hc.eq]; exact h.congr rfl rfl rfl rfl rfl le_rfl
  | get hne => exact h.congr rfl rfl rfl rfl rfl le_rfl
  | reap hT now hex hmax => exact .listen rfl
  | rewind hT now hex hmax =>
      refine ⟨fun hs => ?_, fun hs => ?_⟩
      · obtain ⟨hm, hcase⟩ := h.synrcvd hs
        refine ⟨hm, .inr ⟨rfl, ?_⟩⟩
        rcases hcase with ⟨_, hc⟩ | ⟨hn, _⟩
        · show c.rexmitCount + 1 = 1
          rw [hc]
        · simp [Conn.expired, hn] at hex
      · obtain ⟨_, h2⟩ := h.estab hs
        exact ⟨by show (c.sndUna - c.sndUna).toNat ≤ _; simp, h2⟩
  | output now k hst hk =>
      refine ⟨(fun hs => by rw [hst] at hs; cases hs), fun _ => ?_⟩
      obtain ⟨h1, h2⟩ := h.estab hst
      obtain ⟨hadd, hlt⟩ := hsum hst
      unfold SND_SZ at hlt
      have hsent : (c.sndNxt + BitVec.ofNat 32 k - c.sndUna).toNat = c.sent + k :=
        Serial.toNat_add_sub (by show c.sent + k < _; omega)
      have hhigh : (serialMax c.sndMax (c.sndNxt + BitVec.ofNat 32 k) - c.sndUna).toNat =
          max c.high (c.sent + k) := by
        rw [serialMax_sub (by show c.high < _; omega) (by omega), hsent]
        rfl
      show (c.sndNxt + BitVec.ofNat 32 k - c.sndUna).toNat ≤
          (serialMax c.sndMax (c.sndNxt + BitVec.ofNat 32 k) - c.sndUna).toNat ∧
        (serialMax c.sndMax (c.sndNxt + BitVec.ofNat 32 k) - c.sndUna).toNat ≤ max 1 c.used
      rw [hsent, hhigh]
      omega
  | append b hroom => exact h.congr rfl rfl rfl rfl rfl (ringAppend_used hroom b)
  | taken => exact h.congr rfl rfl rfl rfl rfl le_rfl

/-- Only a timer unsettles a slot. -/
theorem Conn.settled_step {i : Fin n} {c c' : Conn} (h : c.settled)
    (hsum : c.tstate = .estab → c.sent + c.unsent = c.used ∧ c.used < SND_SZ)
    (hs : Conn.Step S False i c c') : c'.settled := by
  cases hs with
  | refl => exact h
  | reset => exact fun hne => absurd rfl hne
  | syn now hd hs => exact fun _ => .inl rfl
  | estab hst =>
      intro _
      rcases h (by rw [hst]; decide) with heq | ⟨hn, hm⟩
      · exact .inl heq
      · exact .inr ⟨rfl, by show c.sndMax = c.sndNxt + 1; rw [hn, hm]⟩
  | ack now hd hst =>
      by_cases hacc : (hasFlag hd.flags 0x10 && c.acceptsAck hd.ack) = true
      · intro _
        rcases h (by rw [hst]; decide) with heq | ⟨hn, _⟩
        · rw [tcpInAck, if_pos hacc]
          exact .inl heq
        · -- with `snd_nxt` at `snd_una` no acknowledgement is accepted
          have hzero : c.sent = 0 := by rw [Conn.sent, hn]; simp
          obtain ⟨hpos, hle⟩ := (acceptsAck_iff (by rw [hzero]; decide)).mp
            (Bool.and_eq_true_iff.mp hacc).2
          omega
      · rw [tcpInAck, if_neg hacc]
        exact h
  | store c' hst hc => rw [hc.eq]; exact h
  | get hne => exact h
  | reap hT => exact hT.elim
  | rewind hT => exact hT.elim
  | output now k hst hk =>
      intro _
      obtain ⟨hadd, hlt⟩ := hsum hst
      unfold SND_SZ at hlt
      have hsent : (c.sndNxt + BitVec.ofNat 32 k - c.sndUna).toNat = c.sent + k :=
        Serial.toNat_add_sub (by show c.sent + k < _; omega)
      have hmax : ∀ m, c.high = m → m ≤ 1 ∨ m = c.sent →
          (serialMax c.sndMax (c.sndNxt + BitVec.ofNat 32 k) - c.sndUna).toNat =
            max m (c.sent + k) := by
        intro m hm hle
        rw [serialMax_sub (by show c.high < _; omega) (by omega), hsent]
        exact congrArg (max · _) hm
      rcases h (by rw [hst]; decide) with heq | ⟨hn, hm⟩
      · left
        have hd := hmax c.sent (by rw [Conn.high, ← heq, Conn.sent]) (.inr rfl)
        exact Serial.toNat_sub_inj.mp (by rw [hsent, hd]; omega)
      · have hone : c.sndUna + 1 - c.sndUna = 1 := by bv_omega
        have hhigh : c.high = 1 := by rw [Conn.high, hm, hone]; decide
        have hzero : c.sent = 0 := by rw [Conn.sent, hn]; simp
        have hd := hmax 1 hhigh (.inl le_rfl)
        cases k with
        | zero =>
            right
            refine ⟨by show c.sndNxt + BitVec.ofNat 32 0 = _; rw [hn]; simp, ?_⟩
            exact Serial.toNat_sub_inj.mp (by rw [hd, hone, hzero]; decide)
        | succ k =>
            left
            exact Serial.toNat_sub_inj.mp (by rw [hsent, hd]; omega)
  | append b hroom => exact h
  | taken => exact h

/-! ## The loops over the slots -/

/-- A loop whose turn at a slot leaves the other slots alone does to a slot what
its own turn does. -/
theorem foldl_conns {f : Net n → Fin n → Net n}
    (hf : ∀ net i j, j ≠ i → (f net i).conns j = net.conns j) (i : Fin n) :
    ∀ (is : List (Fin n)) (net : Net n), is.Nodup → i ∈ is →
      ∃ net0, net0.conns i = net.conns i ∧ (is.foldl f net).conns i = (f net0 i).conns i
  | j :: is, net, hnd, hmem => by
      obtain ⟨hj, hnd'⟩ := List.nodup_cons.mp hnd
      by_cases hij : i = j
      · subst hij
        refine ⟨net, rfl, ?_⟩
        have hrest : ∀ (is : List (Fin n)) (net : Net n), i ∉ is →
            (is.foldl f net).conns i = net.conns i := by
          intro is
          induction is with
          | nil => exact fun _ _ => rfl
          | cons k is ih =>
              intro net hk
              rw [List.mem_cons, not_or] at hk
              rw [List.foldl_cons, ih _ hk.2, hf net k i hk.1]
        exact hrest is _ hj
      · obtain ⟨net0, h0, hfold⟩ := foldl_conns hf i is (f net j) hnd' (List.mem_of_ne_of_mem hij hmem)
        exact ⟨net0, by rw [h0, hf net j i hij], hfold⟩

theorem netTimers_conns (now : BitVec 32) (net : Net n) (i : Fin n) :
    (netTimers now net).conns i = (net.conns i).timer now := by
  have hother : ∀ (net : Net n) (i j : Fin n), j ≠ i → (tcpTimer now net i).conns j = net.conns j :=
    fun net i j hji => by rw [tcpTimer_conns, if_neg hji]
  obtain ⟨net0, h0, heq⟩ := foldl_conns hother i _ net (List.nodup_finRange n) (List.mem_finRange i)
  rw [netTimers, heq, tcpTimer_conns, if_pos rfl, h0]

/-- The work of `tcp_output` on a slot: everything is sent, and only the fields of
sending differ. -/
structure Conn.Flushed (c c' : Conn) : Prop where
  same : c' = { c with
    rexmitAt := c'.rexmitAt, sNxt := c'.sNxt, sndNxt := c'.sndNxt, sndMax := c'.sndMax }
  unsent : c.tstate = .estab → c'.unsent = 0
  other : c.tstate ≠ .estab → c' = c

theorem tcpOutputOne_conns (now : BitVec 32) (net : Net n) (i j : Fin n) (k : Nat) (hji : j ≠ i) :
    (tcpOutputOne now net i k).conns j = net.conns j := by
  simp [tcpOutputOne, hji]

theorem tcpOutputLoop_other (now : BitVec 32) (i j : Fin n) (hji : j ≠ i) :
    ∀ (fuel unsent : Nat) (net : Net n),
      (tcpOutputLoop now i fuel unsent net).conns j = net.conns j
  | 0, _, _ => rfl
  | fuel + 1, unsent, net => by
      rw [tcpOutputLoop]
      split
      · rfl
      · rw [tcpOutputLoop_other now i j hji fuel, tcpOutputOne_conns now net i j _ hji]

theorem tcpOutput_other (now : BitVec 32) (net : Net n) (i j : Fin n) (hji : j ≠ i) :
    (tcpOutput now net i).conns j = net.conns j := by
  unfold tcpOutput
  dsimp only
  split
  · rfl
  · exact tcpOutputLoop_other now i j hji _ _ net

theorem tcpOutputLoop_flushed (now : BitVec 32) (i : Fin n) :
    ∀ (fuel unsent : Nat) (net : Net n), unsent ≤ fuel → unsent = (net.conns i).unsent →
      (net.conns i).tstate = .estab →
      (net.conns i).Flushed ((tcpOutputLoop now i fuel unsent net).conns i)
  | 0, unsent, net, hle, hu, hst => by
      refine ⟨rfl, fun _ => ?_, (fun h => absurd hst h)⟩
      show (net.conns i).unsent = 0
      omega
  | fuel + 1, unsent, net, hle, hu, hst => by
      rw [tcpOutputLoop]
      split
      next hzero => exact ⟨rfl, (fun _ => by rw [← hu, hzero]), (fun h => absurd hst h)⟩
      next hne =>
        generalize hk : (if unsent > MSS_TX then MSS_TX else unsent) = k
        have hk' : k ≤ unsent ∧ 0 < k := by
          subst hk
          unfold MSS_TX
          split <;> omega
        have hun := tcpOutputOne_unsent now net i (k := k) (by omega)
        have hst' : ((tcpOutputOne now net i k).conns i).tstate = .estab := by
          simpa [tcpOutputOne] using hst
        have ih := tcpOutputLoop_flushed now i fuel (unsent - k) (tcpOutputOne now net i k)
          (by omega) (by rw [hun, hu]) hst'
        refine ⟨?_, (fun _ => ih.unsent hst'), (fun h => absurd hst h)⟩
        have hsame := ih.same
        rw [hsame]
        simp only [tcpOutputOne, Net.set_conns_self]

theorem netTxFlush_conns (now : BitVec 32) (net : Net n) (i : Fin n) :
    (net.conns i).Flushed ((netTxFlush now net).conns i) := by
  obtain ⟨net0, h0, heq⟩ := foldl_conns (tcpOutput_other now) i _ net (List.nodup_finRange n)
    (List.mem_finRange i)
  rw [netTxFlush, heq, ← h0]
  unfold tcpOutput
  dsimp only
  split
  next hst => exact ⟨rfl, (fun h => absurd h hst), (fun _ => rfl)⟩
  next hst =>
    rw [not_not] at hst
    exact tcpOutputLoop_flushed now i _ _ net0 le_rfl rfl hst

/-- `tcp_output` leaves the timer or sets it. -/
theorem netTxFlush_rexmitAt (now : BitVec 32) (net : Net n) (i : Fin n) :
    ((netTxFlush now net).conns i).rexmitAt = (net.conns i).rexmitAt ∨
      ((netTxFlush now net).conns i).rexmitAt = now + REXMIT_TICKS := by
  have hloop : ∀ (fuel unsent : Nat) (net : Net n),
      ((tcpOutputLoop now i fuel unsent net).conns i).rexmitAt = (net.conns i).rexmitAt ∨
        ((tcpOutputLoop now i fuel unsent net).conns i).rexmitAt = now + REXMIT_TICKS := by
    intro fuel
    induction fuel with
    | zero => exact fun _ _ => .inl rfl
    | succ fuel ih =>
        intro unsent net
        rw [tcpOutputLoop]
        split
        · exact .inl rfl
        · generalize (if unsent > MSS_TX then MSS_TX else unsent) = k
          have hone : ((tcpOutputOne now net i k).conns i).rexmitAt = (net.conns i).rexmitAt ∨
              ((tcpOutputOne now net i k).conns i).rexmitAt = now + REXMIT_TICKS := by
            simp only [tcpOutputOne, Net.set_conns_self]
            split
            · exact .inr rfl
            · exact .inl rfl
          rcases ih (unsent - k) (tcpOutputOne now net i k) with hsame | hset
          · rw [hsame]
            exact hone
          · exact .inr hset
  obtain ⟨net0, h0, heq⟩ := foldl_conns (tcpOutput_other now) i _ net (List.nodup_finRange n)
    (List.mem_finRange i)
  rw [netTxFlush, heq, ← h0]
  unfold tcpOutput
  dsimp only
  split
  · exact .inl rfl
  · exact hloop _ _ net0

/-! ## The invariant along runs -/

/-- The invariants of sending and of the sequence numbers. -/
structure TimerOk (net : Net n) : Prop where
  send : SendOk net
  seq : ∀ i, SeqOk (net.conns i)

theorem TimerOk.act {net net' : Net n} (h : TimerOk net) (ha : Act S T net net') : TimerOk net' :=
  ⟨h.send.act ha, fun i => (h.seq i).step (h.send.slots i).sent_add_unsent (ha.conn_step i)⟩

theorem TimerOk.sum {net : Net n} (h : TimerOk net) {i : Fin n}
    (hst : (net.conns i).tstate = .estab) :
    (net.conns i).sent + (net.conns i).unsent = (net.conns i).used ∧
      (net.conns i).used < SND_SZ := (h.send.slots i).sent_add_unsent hst

/-- Acts other than timers keep every slot settled. -/
theorem TimerOk.settled {net net' : Net n} (h : TimerOk net) (ha : Acts S False net net')
    (hset : ∀ i, (net.conns i).settled) : ∀ i, (net'.conns i).settled := by
  have hboth := ha.preserves (P := fun net => TimerOk net ∧ ∀ i, (net.conns i).settled)
    (fun _ _ hp hact => ⟨hp.1.act hact, fun i =>
      Conn.settled_step (hp.2 i) (hp.1.send.slots i).sent_add_unsent (hact.conn_step i)⟩)
    ⟨h, hset⟩
  exact hboth.2

theorem TimerOk.acts {net net' : Net n} (h : TimerOk net) (ha : Acts S T net net') :
    TimerOk net' := ha.preserves (fun _ _ hp hact => hp.act hact) h

/-- With nothing left to send, an established slot is settled. -/
theorem SeqOk.settled {c : Conn} (h : SeqOk c)
    (hsum : c.tstate = .estab → c.sent + c.unsent = c.used ∧ c.used < SND_SZ)
    (hflush : c.tstate = .estab → c.unsent = 0) : c.settled := by
  intro hne
  cases hst : c.tstate with
  | listen => exact absurd hst hne
  | synrcvd =>
      obtain ⟨hmax, hcase⟩ := h.synrcvd hst
      rcases hcase with ⟨hn, _⟩ | ⟨hn, _⟩
      · exact .inl (by rw [hn, hmax])
      · exact .inr ⟨hn, hmax⟩
  | estab =>
      obtain ⟨h1, h2⟩ := h.estab hst
      have hs := hsum hst
      have hu := hflush hst
      rcases Nat.eq_or_lt_of_le h1 with heq | hlt
      · exact .inl (Serial.toNat_sub_inj.mp heq)
      · have hzero : c.sent = 0 := by omega
        have hone : c.high = 1 := by omega
        refine .inr ⟨?_, ?_⟩
        · refine Serial.toNat_sub_inj (u := c.sndUna).mp ?_
          rw [BitVec.sub_self]
          exact hzero
        · refine Serial.toNat_sub_inj (u := c.sndUna).mp ?_
          have heq : c.sndUna + 1 - c.sndUna = 1 := by bv_omega
          rw [heq]
          exact hone

/-- `net_poll` keeps the invariant and ends with every slot settled and sent. -/
theorem TimerOk.poll {net : Net n} (h : TimerOk net) (now : BitVec 32)
    (pkt : Option (List UInt8)) :
    TimerOk (netPoll now pkt net) ∧ (∀ i, ((netPoll now pkt net).conns i).settled) ∧
      ∀ i, ((netPoll now pkt net).conns i).tstate = .estab →
        ((netPoll now pkt net).conns i).unsent = 0 := by
  have hacts : Acts (fun _ _ => True) True net (netPoll now pkt net) :=
    netPoll_acts trivial now pkt net fun _ _ => trivial
  have hok := h.acts hacts
  have hsent : ∀ i, ((netPoll now pkt net).conns i).tstate = .estab →
      ((netPoll now pkt net).conns i).unsent = 0 := by
    intro i hst
    have hfl := netTxFlush_conns now (netReceive now (netTimers now net) pkt) i
    refine hfl.unsent ?_
    have hsame := hfl.same
    rw [netPoll, hsame] at hst
    exact hst
  exact ⟨hok, fun i => (hok.seq i).settled hok.sum (hsent i), hsent⟩

/-- The invariant holds in every state of every run, and between calls no slot
waits for a retransmission. -/
theorem NetReach.timerOk {net : Net n} (h : NetReach net) :
    TimerOk net ∧ ∀ i, (net.conns i).settled := by
  refine h.induct (P := fun net => TimerOk net ∧ ∀ i, (net.conns i).settled) (fun m ip p => ?_)
    fun op net hn => ?_
  · have hreach : NetReach (netOpen m ip p : Net n) := ⟨m, ip, p, [], rfl⟩
    exact ⟨⟨hreach.sendOk, fun _ => .listen rfl⟩, fun _ hne => absurd rfl hne⟩
  · obtain ⟨hok, hset⟩ := hn
    by_cases hpoll : ∃ now pkt, op = .poll now pkt
    · obtain ⟨now, pkt, rfl⟩ := hpoll
      exact ⟨(hok.poll now pkt).1, (hok.poll now pkt).2.1⟩
    · by_cases hready : ∃ i v, op = .slotReady i v
      · obtain ⟨i, v, rfl⟩ := hready
        have hconns : ∀ j, ((NetOp.slotReady i v).run net).conns j =
            { net.conns j with ready := ((NetOp.slotReady i v).run net |>.conns j).ready } := by
          intro j
          by_cases hji : j = i
          · subst hji
            simp [NetOp.run, netSlotReady]
          · simp only [NetOp.run, netSlotReady, Net.set_conns_ne _ _ hji]
            split <;> rfl
        refine ⟨⟨hok.send.slotReady i v, fun j => ?_⟩, fun j => ?_⟩
        · rw [hconns j]
          exact (hok.seq j).congr rfl rfl rfl rfl rfl le_rfl
        · rw [hconns j]
          exact hset j
      · push Not at hready hpoll
        have hacts : Acts (fun _ _ => True) False net (op.run net) :=
          NetOp.run_acts hready (fun now pkt heq => absurd heq (hpoll now pkt))
            fun _ _ _ _ _ => trivial
        exact ⟨hok.acts hacts, hok.settled hacts hset⟩

end Dossh
