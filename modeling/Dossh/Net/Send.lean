import Dossh.Net.Acts
import Dossh.Lib.History

/-!
# Reliable sending

A connection's send ring is understood through the stream of bytes appended to
it since its SYN (`streamOf`).  `Window c S una nxt` places the three ring
indices on the stream `S`: everything before `una` is acknowledged, everything
before `nxt` is transmitted.  In `ESTAB` the two sequence numbers are the same
positions counted from `b`, the value of `snd_una` when the connection was
established.  `SlotSend` is the invariant of one slot, kept by every act of the
stack, and `segments_carry_stream` is what it says about the data segments
in the history.
-/

namespace Dossh

variable {n : Nat} {S : Fin n → Conn → Prop} {T : Prop}

/-! ## Events of a connection -/

/-- The connection an event belongs to. -/
def NetEvent.conn? : NetEvent n → Option (Fin n × Nat)
  | .syn i g _ => some (i, g)
  | .estab i g _ => some (i, g)
  | .admitted i g => some (i, g)
  | .append _ i g _ => some (i, g)
  | .expire i g => some (i, g)
  | .seg i g _ _ => some (i, g)
  | .refuse _ _ => none
  | .arp _ => none

/-- Events that neither open nor establish a connection nor extend its stream. -/
def NetEvent.quiet : NetEvent n → Bool
  | .syn _ _ _ => false
  | .estab _ _ _ => false
  | .append _ _ _ _ => false
  | _ => true

theorem streamOf_cons_quiet (i : Fin n) (g : Nat) {e : NetEvent n} (log : List (NetEvent n))
    (he : e.quiet = true) : streamOf i g (e :: log) = streamOf i g log := by
  cases e with
  | append => cases he
  | _ => rfl

theorem streamOf_cons_other (i : Fin n) (g : Nat) {e : NetEvent n} (log : List (NetEvent n))
    (he : e.conn? ≠ some (i, g)) : streamOf i g (e :: log) = streamOf i g log := by
  cases e with
  | append kind j g' b =>
      rw [streamOf, if_neg]
      rintro ⟨rfl, rfl⟩
      exact he rfl
  | _ => rfl

@[simp] theorem streamOf_cons_estab (i j : Fin n) (g g' : Nat) (b : BitVec 32)
    (log : List (NetEvent n)) :
    streamOf i g (.estab j g' b :: log) = streamOf i g log := rfl

@[simp] theorem streamOf_cons_append (kind : TxKind) (i : Fin n) (g : Nat) (b : UInt8)
    (log : List (NetEvent n)) :
    streamOf i g (.append kind i g b :: log) = streamOf i g log ++ [b] := by
  rw [streamOf, if_pos ⟨rfl, rfl⟩]

/-- A connection no event mentions has sent nothing. -/
theorem streamOf_eq_nil {i : Fin n} {g : Nat} :
    ∀ {log : List (NetEvent n)}, (∀ e ∈ log, e.conn? ≠ some (i, g)) → streamOf i g log = []
  | [], _ => rfl
  | e :: log, h => by
      rw [streamOf_cons_other i g log (h e List.mem_cons_self)]
      exact streamOf_eq_nil fun e' he' => h e' (List.mem_cons_of_mem _ he')

/-- The stream of a connection only grows. -/
theorem streamOf_mono {i : Fin n} {g : Nat} :
    ∀ {past log : List (NetEvent n)}, past <:+ log → streamOf i g past <+: streamOf i g log
  | past, [], h => by
      cases List.suffix_nil.mp h
      exact List.prefix_refl _
  | past, e :: log, h => by
      rcases List.suffix_cons_iff.mp h with rfl | h'
      · exact List.prefix_refl _
      · refine (streamOf_mono h').trans ?_
        by_cases he : e.conn? = some (i, g)
        · cases e with
          | append kind j g' b =>
              cases he
              rw [streamOf_cons_append]
              exact List.prefix_append _ _
          | _ => exact List.prefix_refl _
        · simp [streamOf_cons_other i g log he]

/-! ## The send window -/

/-- The ring indices of `c` are the positions `una ≤ nxt ≤ |S|` of the stream. -/
structure Window (c : Conn) (S : List UInt8) (una nxt : Nat) : Prop where
  una_le : una ≤ nxt
  nxt_le : nxt ≤ S.length
  room : S.length - una < SND_SZ
  sUna : c.sUna = una % SND_SZ
  sNxt : c.sNxt = nxt % SND_SZ
  sEnd : c.sEnd = S.length % SND_SZ
  holds : Ring.Holds SND_SZ c.sbuf S una

theorem Window.used_eq {c : Conn} {S : List UInt8} {una nxt : Nat} (h : Window c S una nxt) :
    c.used = S.length - una := by
  rw [Conn.used, h.sEnd, h.sUna]
  exact Ring.dist_mod (h.una_le.trans h.nxt_le) h.room

theorem Window.unsent_eq {c : Conn} {S : List UInt8} {una nxt : Nat} (h : Window c S una nxt) :
    c.unsent = S.length - nxt := by
  have := h.una_le
  have := h.room
  rw [Conn.unsent, h.sEnd, h.sNxt]
  exact Ring.dist_mod h.nxt_le (by omega)

/-- The part of a connection that sending reads. -/
def Conn.sendPart (c : Conn) :
    TState × Nat × BitVec 32 × BitVec 32 × (Nat → UInt8) × Nat × Nat × Nat :=
  (c.tstate, c.gen, c.sndUna, c.sndNxt, c.sbuf, c.sUna, c.sNxt, c.sEnd)

/-- The sequence numbers of an established connection are stream positions counted
from `b`. -/
structure Established (i : Fin n) (c : Conn) (log : List (NetEvent n)) (b : BitVec 32)
    (una nxt : Nat) : Prop where
  entry : NetEvent.estab i c.gen b ∈ log
  unique : ∀ b', NetEvent.estab i c.gen b' ∈ log → b' = b
  window : Window c (streamOf i c.gen log) una nxt
  sndUna : c.sndUna = b + BitVec.ofNat 32 una
  sndNxt : c.sndNxt = b + BitVec.ofNat 32 nxt

/-- The invariant of one slot. -/
structure SlotSend (i : Fin n) (c : Conn) (log : List (NetEvent n)) : Prop where
  gens : ∀ e ∈ log, ∀ g, e.conn? = some (i, g) → g ≤ c.gen
  synrcvd : c.tstate = .synrcvd →
    (∀ b, NetEvent.estab i c.gen b ∉ log) ∧ Window c (streamOf i c.gen log) 0 0
  iss : c.tstate = .synrcvd → ∀ iss, NetEvent.syn i c.gen iss ∈ log ↔ iss = c.sndUna
  estab : c.tstate = .estab → ∃ b una nxt, Established i c log b una nxt

/-- Only the sending part of a connection matters. -/
theorem SlotSend.congr {i : Fin n} {c c' : Conn} {log : List (NetEvent n)}
    (h : SlotSend i c log) (hc : c'.sendPart = c.sendPart) : SlotSend i c' log := by
  simp only [Conn.sendPart, Prod.mk.injEq] at hc
  obtain ⟨hst, hgen, huna, hnxt, hbuf, hsu, hsn, hse⟩ := hc
  have hwin : ∀ S una nxt, Window c S una nxt → Window c' S una nxt := fun S una nxt w =>
    ⟨w.una_le, w.nxt_le, w.room, hsu ▸ w.sUna, hsn ▸ w.sNxt, hse ▸ w.sEnd, hbuf ▸ w.holds⟩
  refine ⟨fun e he g hg => hgen ▸ h.gens e he g hg, fun hs => ?_, fun hs => ?_, fun hs => ?_⟩
  · obtain ⟨hno, hw⟩ := h.synrcvd (hst ▸ hs)
    rw [hgen]
    exact ⟨hno, hwin _ _ _ hw⟩
  · rw [hgen, huna]
    exact h.iss (hst ▸ hs)
  · obtain ⟨b, una, nxt, he⟩ := h.estab (hst ▸ hs)
    exact ⟨b, una, nxt, by rw [hgen]; exact he.entry, by rw [hgen]; exact he.unique,
      by rw [hgen]; exact hwin _ _ _ he.window, huna ▸ he.sndUna, hnxt ▸ he.sndNxt⟩

/-- Recording an event that is quiet or belongs to another slot keeps the
invariant. -/
theorem SlotSend.note {i : Fin n} {c : Conn} {log : List (NetEvent n)} {e : NetEvent n}
    (h : SlotSend i c log) (hgen : ∀ g, e.conn? = some (i, g) → g ≤ c.gen ∧ e.quiet = true) :
    SlotSend i c (e :: log) := by
  have hstream : streamOf i c.gen (e :: log) = streamOf i c.gen log := by
    by_cases he : e.conn? = some (i, c.gen)
    · exact streamOf_cons_quiet i c.gen log (hgen _ he).2
    · exact streamOf_cons_other i c.gen log he
  have hestab : ∀ b, NetEvent.estab i c.gen b ∈ e :: log → NetEvent.estab i c.gen b ∈ log := by
    intro b hb
    rcases List.mem_cons.mp hb with rfl | hb'
    · exact absurd (hgen _ rfl).2 (by simp [NetEvent.quiet])
    · exact hb'
  refine ⟨fun e' he' g hg => ?_, fun hs => ?_, fun hs iss => ?_, fun hs => ?_⟩
  · rcases List.mem_cons.mp he' with rfl | he''
    · exact (hgen g hg).1
    · exact h.gens e' he'' g hg
  · obtain ⟨hno, hw⟩ := h.synrcvd hs
    exact ⟨fun b hb => hno b (hestab b hb), hstream ▸ hw⟩
  · rw [← h.iss hs iss, List.mem_cons, or_iff_right]
    rintro rfl
    exact absurd (hgen _ rfl).2 (by simp [NetEvent.quiet])
  · obtain ⟨b, una, nxt, he⟩ := h.estab hs
    exact ⟨b, una, nxt, List.mem_cons_of_mem _ he.entry, fun b' hb' => he.unique b' (hestab b' hb'),
      hstream ▸ he.window, he.sndUna, he.sndNxt⟩

/-! ## One slot under the acts -/

theorem SlotSend.reset {i : Fin n} {c : Conn} {log : List (NetEvent n)} (h : SlotSend i c log) :
    SlotSend i (tcpResetListen c) log :=
  ⟨h.gens, (fun hs => by cases hs), (fun hs => by cases hs), (fun hs => by cases hs)⟩

/-- A fresh SYN starts the next connection of the slot with an empty stream. -/
theorem SlotSend.syn {i : Fin n} {c : Conn} {log : List (NetEvent n)} (h : SlotSend i c log)
    (now : BitVec 32) (hd : TcpHdr) :
    SlotSend i (synConn now hd i c)
      (.syn i (c.gen + 1) (synConn now hd i c).sndUna :: log) := by
  have hfresh : ∀ e ∈ log, e.conn? ≠ some (i, c.gen + 1) := fun e he hg => by
    have := h.gens e he _ hg
    omega
  refine ⟨fun e he g hg => ?_, fun _ => ⟨fun b hb => ?_, ?_⟩, fun _ iss => ?_,
    fun hs => by cases hs⟩
  · rcases List.mem_cons.mp he with rfl | he'
    · cases hg
      exact Nat.le_refl _
    · exact (h.gens e he' g hg).trans (Nat.le_succ _)
  · rcases List.mem_cons.mp hb with heq | hb'
    · cases heq
    · exact hfresh _ hb' rfl
  · have hnil : streamOf i (synConn now hd i c).gen
        (.syn i (c.gen + 1) (synConn now hd i c).sndUna :: log) = [] := by
      show streamOf i (c.gen + 1) log = []
      exact streamOf_eq_nil hfresh
    rw [hnil]
    exact ⟨Nat.le_refl _, Nat.le_refl _, by decide, rfl, rfl, rfl, Ring.Holds.nil _ _ _⟩
  · constructor
    · intro hmem
      rcases List.mem_cons.mp hmem with heq | hmem'
      · cases heq
        rfl
      · exact absurd rfl (hfresh _ hmem')
    · intro heq
      rw [heq]
      exact List.mem_cons_self

/-- Entering `ESTAB` fixes the base of the sequence numbers. -/
theorem SlotSend.establish {i : Fin n} {c : Conn} {log : List (NetEvent n)}
    (h : SlotSend i c log) (hst : c.tstate = .synrcvd) (j : Bool) (r : Nat) :
    SlotSend i { c with sndUna := c.sndNxt, tstate := .estab, justEstab := j, rexmitCount := r }
      (.estab i c.gen c.sndNxt :: log) := by
  obtain ⟨hno, hw⟩ := h.synrcvd hst
  refine ⟨fun e he g hg => ?_, (fun hs => by cases hs), (fun hs => by cases hs),
    fun _ => ⟨c.sndNxt, 0, 0, List.mem_cons_self, fun b' hb' => ?_, ?_, ?_, ?_⟩⟩
  · rcases List.mem_cons.mp he with rfl | he'
    · cases hg
      exact Nat.le_refl _
    · exact h.gens e he' g hg
  · rcases List.mem_cons.mp hb' with heq | hb''
    · cases heq
      rfl
    · exact absurd hb'' (hno b')
  · rw [streamOf_cons_estab]
    exact ⟨hw.una_le, hw.nxt_le, hw.room, hw.sUna, hw.sNxt, hw.sEnd, hw.holds⟩
  · simp
  · simp

/-- An accepted ACK covers at least one byte and at most the transmitted ones. -/
theorem acceptsAck_range {c : Conn} {b ack : BitVec 32} {una nxt : Nat}
    (huna : c.sndUna = b + BitVec.ofNat 32 una) (hnxt : c.sndNxt = b + BitVec.ofNat 32 nxt)
    (hle : una ≤ nxt) (hlt : nxt - una < SND_SZ) (hack : c.acceptsAck ack = true) :
    0 < (ack - c.sndUna).toNat ∧ (ack - c.sndUna).toNat ≤ nxt - una := by
  simp only [Conn.acceptsAck, Bool.and_eq_true, decide_eq_true_eq] at hack
  obtain ⟨hpos, hnonpos⟩ := hack
  have hd : c.sndNxt = c.sndUna + BitVec.ofNat 32 (nxt - una) := by
    rw [hnxt, huna, BitVec.add_assoc, ← BitVec.ofNat_add]
    congr 2
    omega
  rw [hd] at hnonpos
  generalize c.sndUna = u at *
  generalize hm : nxt - una = m at *
  simp only [SND_SZ] at hlt
  have hx : ack - (u + BitVec.ofNat 32 m) = (ack - u) - BitVec.ofNat 32 m := by
    bv_omega
  rw [hx] at hnonpos
  generalize ack - u = x at *
  rw [BitVec.toInt_eq_toNat_cond] at hpos hnonpos
  rw [BitVec.toNat_sub, BitVec.toNat_ofNat] at hnonpos
  have := x.isLt
  split at hpos <;> split at hnonpos <;> omega

/-- An acknowledgement moves the left edge of the window. -/
theorem SlotSend.ack {i : Fin n} {c : Conn} {log : List (NetEvent n)} (h : SlotSend i c log)
    (hst : c.tstate = .estab) (now : BitVec 32) (hd : TcpHdr) :
    SlotSend i (tcpInAck now hd c) log := by
  unfold tcpInAck
  split
  next hacc =>
    rw [Bool.and_eq_true] at hacc
    obtain ⟨b, una, nxt, he⟩ := h.estab hst
    have hw := he.window
    have := hw.una_le
    have := hw.nxt_le
    have hroom := hw.room
    obtain ⟨hpos, hle⟩ := acceptsAck_range he.sndUna he.sndNxt hw.una_le (by omega) hacc.2
    generalize hf : (hd.ack - c.sndUna).toNat = f at *
    refine ⟨h.gens, (fun hs => by simp [hst] at hs), (fun hs => by simp [hst] at hs),
      fun _ => ⟨b, una + f, nxt, he.entry, he.unique, ⟨by omega, hw.nxt_le, ?_, ?_, hw.sNxt,
        hw.sEnd, hw.holds.mono (by omega)⟩, ?_, he.sndNxt⟩⟩
    · show (streamOf i c.gen log).length - (una + f) < SND_SZ
      omega
    · show (c.sUna + f % 65536) % SND_SZ = (una + f) % SND_SZ
      have hsmall : f % 65536 = f := Nat.mod_eq_of_lt (by unfold SND_SZ at hroom; omega)
      rw [hw.sUna, hsmall, Nat.mod_add_mod]
    · show hd.ack = _
      have hack : hd.ack = c.sndUna + BitVec.ofNat 32 f := by
        rw [← hf, BitVec.ofNat_toNat, BitVec.setWidth_eq, BitVec.add_comm, BitVec.sub_add_cancel]
      rw [hack, he.sndUna, BitVec.add_assoc, ← BitVec.ofNat_add]
  next => exact h

/-- Go-back-N moves the transmitted position back to the acknowledged one. -/
theorem SlotSend.rewind {i : Fin n} {c : Conn} {log : List (NetEvent n)} (h : SlotSend i c log)
    (r : Nat) (at' : BitVec 32) :
    SlotSend i { c with rexmitCount := r, sNxt := c.sUna, sndNxt := c.sndUna, rexmitAt := at' }
      log := by
  refine ⟨h.gens, fun hs => ?_, fun hs => h.iss hs, fun hs => ?_⟩
  · obtain ⟨hno, hw⟩ := h.synrcvd hs
    exact ⟨hno, hw.una_le, hw.nxt_le, hw.room, hw.sUna, hw.sUna, hw.sEnd, hw.holds⟩
  · obtain ⟨b, una, nxt, he⟩ := h.estab hs
    have hw := he.window
    exact ⟨b, una, una, he.entry, he.unique,
      ⟨Nat.le_refl _, hw.una_le.trans hw.nxt_le, hw.room, hw.sUna, hw.sUna, hw.sEnd, hw.holds⟩,
      he.sndUna, he.sndUna⟩

/-- Transmitting `k` unsent bytes moves the transmitted position. -/
theorem SlotSend.output {i : Fin n} {c : Conn} {log : List (NetEvent n)} (h : SlotSend i c log)
    (hst : c.tstate = .estab) {k : Nat} (hk : k ≤ c.unsent) (at' top : BitVec 32) :
    SlotSend i { c with
      rexmitAt := at', sNxt := (c.sNxt + k) % SND_SZ, sndNxt := c.sndNxt + BitVec.ofNat 32 k
      sndMax := top } log := by
  obtain ⟨b, una, nxt, he⟩ := h.estab hst
  have hw := he.window
  have hle := hw.una_le
  have hnl := hw.nxt_le
  rw [hw.unsent_eq] at hk
  refine ⟨h.gens, (fun hs => by simp [hst] at hs), (fun hs => by simp [hst] at hs),
    fun _ => ⟨b, una, nxt + k, he.entry, he.unique, ⟨by omega, by show nxt + k ≤ (streamOf i c.gen log).length; omega, hw.room, hw.sUna, ?_,
      hw.sEnd, hw.holds⟩, he.sndUna, ?_⟩⟩
  · show (c.sNxt + k) % SND_SZ = (nxt + k) % SND_SZ
    rw [hw.sNxt, Nat.mod_add_mod]
  · show c.sndNxt + BitVec.ofNat 32 k = _
    rw [he.sndNxt, BitVec.add_assoc, ← BitVec.ofNat_add]

theorem Window.push {c : Conn} {S : List UInt8} {una nxt : Nat} (h : Window c S una nxt)
    (hroom : c.used < SND_SZ - 1) (b : UInt8) :
    Window { c with sbuf := Function.update c.sbuf c.sEnd b, sEnd := (c.sEnd + 1) % SND_SZ }
      (S ++ [b]) una nxt := by
  have hu := h.used_eq
  have hnl := h.nxt_le
  refine ⟨h.una_le, by simp; omega, ?_, h.sUna, h.sNxt, ?_, ?_⟩
  · rw [List.length_append, List.length_singleton]
    unfold SND_SZ at *
    omega
  · show (c.sEnd + 1) % SND_SZ = _
    rw [h.sEnd, Nat.mod_add_mod, List.length_append, List.length_singleton]
  · show Ring.Holds SND_SZ (Function.update c.sbuf c.sEnd b) _ _
    rw [h.sEnd]
    exact h.holds.push h.room b

/-- Appending a byte extends the stream and overwrites nothing. -/
theorem SlotSend.append {i : Fin n} {c : Conn} {log : List (NetEvent n)} (h : SlotSend i c log)
    (kind : TxKind) (hroom : c.used < SND_SZ - 1) (b : UInt8) :
    SlotSend i { c with sbuf := Function.update c.sbuf c.sEnd b, sEnd := (c.sEnd + 1) % SND_SZ }
      (.append kind i c.gen b :: log) := by
  have hestab : ∀ b', NetEvent.estab i c.gen b' ∈ NetEvent.append kind i c.gen b :: log →
      NetEvent.estab i c.gen b' ∈ log := by
    intro b' hb'
    rcases List.mem_cons.mp hb' with heq | hb''
    · cases heq
    · exact hb''
  refine ⟨fun e he g hg => ?_, fun hs => ?_, fun hs iss => ?_, fun hs => ?_⟩
  · rcases List.mem_cons.mp he with rfl | he'
    · cases hg
      exact Nat.le_refl _
    · exact h.gens e he' g hg
  · obtain ⟨hno, hw⟩ := h.synrcvd hs
    refine ⟨fun b' hb' => hno b' (hestab b' hb'), ?_⟩
    rw [streamOf_cons_append]
    exact hw.push hroom b
  · refine Iff.trans ?_ (h.iss hs iss)
    rw [List.mem_cons, or_iff_right]
    intro heq
    cases heq
  · obtain ⟨b0, una, nxt, he⟩ := h.estab hs
    refine ⟨b0, una, nxt, List.mem_cons_of_mem _ he.entry,
      fun b' hb' => he.unique b' (hestab b' hb'), ?_, he.sndUna, he.sndNxt⟩
    rw [streamOf_cons_append]
    exact he.window.push hroom b

/-! ## All slots -/

/-- A data segment carries the bytes of the stream at its sequence number. -/
def CarriesStream (e : NetEvent n) (past : List (NetEvent n)) : Prop :=
  ∀ i g ipId s, e = .seg i g ipId s → s.data ≠ [] →
    ∃ b k, NetEvent.estab i g b ∈ past ∧ (∀ b', NetEvent.estab i g b' ∈ past → b' = b) ∧
      s.seq = b + BitVec.ofNat 32 k ∧ k + s.data.length ≤ (streamOf i g past).length ∧
      s.data = ((streamOf i g past).drop k).take s.data.length

/-- The invariant of the stack: every slot, and every segment of the history. -/
structure SendOk (net : Net n) : Prop where
  slots : ∀ i, SlotSend i (net.conns i) net.log
  segs : History.Always CarriesStream net.log

/-- The events a step records all belong to slot `i`, or to no slot. -/
def OwnLog (i : Fin n) (log log' : List (NetEvent n)) : Prop :=
  ∃ evs, log' = evs ++ log ∧ ∀ e ∈ evs, ∀ j g, e.conn? = some (j, g) → j = i

theorem OwnLog.refl (i : Fin n) (log : List (NetEvent n)) : OwnLog i log log :=
  ⟨[], rfl, by simp⟩

theorem OwnLog.cons {i : Fin n} {log log' : List (NetEvent n)} (h : OwnLog i log log')
    {e : NetEvent n} (he : ∀ j g, e.conn? = some (j, g) → j = i) : OwnLog i log (e :: log') := by
  obtain ⟨evs, rfl, hevs⟩ := h
  refine ⟨e :: evs, rfl, fun e' he' j g hg => ?_⟩
  rcases List.mem_cons.mp he' with rfl | he''
  · exact he j g hg
  · exact hevs e' he'' j g hg

/-- A slot is not affected by what other slots record. -/
theorem SlotSend.other {i j : Fin n} {c : Conn} {log log' : List (NetEvent n)}
    (h : SlotSend j c log) (hne : j ≠ i) (hlog : OwnLog i log log') : SlotSend j c log' := by
  obtain ⟨evs, rfl, hevs⟩ := hlog
  induction evs with
  | nil => exact h
  | cons e evs ih =>
      refine (ih fun e' he' => hevs e' (List.mem_cons_of_mem _ he')).note fun g hg => ?_
      exact absurd (hevs e List.mem_cons_self j g hg) hne

/-- A step of slot `i` keeps the invariant of all slots if it keeps its own. -/
theorem slots_step {net net' : Net n} (i : Fin n)
    (h : ∀ j, SlotSend j (net.conns j) net.log)
    (hconn : ∀ j, j ≠ i → net'.conns j = net.conns j) (hlog : OwnLog i net.log net'.log)
    (hi : SlotSend i (net'.conns i) net'.log) : ∀ j, SlotSend j (net'.conns j) net'.log := by
  intro j
  by_cases hji : j = i
  · rw [hji]
    exact hi
  · rw [hconn j hji]
    exact (h j).other hji hlog

/-- Replacing a slot by one that keeps its invariant. -/
theorem SendOk.set {net : Net n} (h : SendOk net) (i : Fin n) {c : Conn}
    (hc : SlotSend i c net.log) : SendOk (net.set i c) :=
  ⟨slots_step i h.slots (fun j hj => Net.set_conns_ne net c hj) (OwnLog.refl i _)
    (by rw [Net.set_conns_self]; exact hc), h.segs⟩

/-- A segment without data. -/
theorem SendOk.send {net : Net n} (h : SendOk net) (i : Fin n) (flags : UInt8) (mss : Bool) :
    SendOk (tcpSendSeg net i flags mss 0 0) := by
  refine ⟨slots_step i h.slots (fun _ _ => rfl) ((OwnLog.refl i _).cons ?_) ?_, ?_, h.segs⟩
  · rintro j g hg
    cases hg
    rfl
  · refine (h.slots i).note fun g hg => ?_
    cases hg
    exact ⟨Nat.le_refl _, rfl⟩
  · rintro i' g ipId s hs hdata
    cases hs
    exact absurd rfl hdata

/-- An event of slot `i` together with its new state. -/
theorem SendOk.noteSet {net : Net n} (h : SendOk net) (i : Fin n) {e : NetEvent n} {c : Conn}
    {g : Nat} (he : e.conn? = some (i, g)) (hseg : CarriesStream e net.log)
    (hc : SlotSend i c (e :: net.log)) : SendOk ((net.note e).set i c) := by
  refine ⟨@slots_step n net ((net.note e).set i c) i h.slots
    (fun j hj => Net.set_conns_ne _ c hj) ((OwnLog.refl i _).cons ?_) ?_, hseg, h.segs⟩
  · intro j g' hg'
    rw [he] at hg'
    cases hg'
    rfl
  · rw [Net.set_conns_self]
    exact hc

theorem SendOk.syn {net : Net n} (h : SendOk net) (now : BitVec 32) (hd : TcpHdr) (i : Fin n) :
    SendOk (tcpInSynAccept now net hd i) := by
  have h1 : SendOk ((net.note (.syn i ((net.conns i).gen + 1)
      (synConn now hd i (net.conns i)).sndUna)).set i (synConn now hd i (net.conns i))) :=
    h.noteSet i rfl (by rintro _ _ _ _ hs; cases hs) ((h.slots i).syn now hd)
  have h2 := h1.send i 0x12 true
  refine h2.set i ?_
  have hslot := h2.slots i
  rw [tcpSendSeg_conns, Net.set_conns_self] at hslot
  refine ⟨hslot.gens, fun _ => ?_, (fun _ => hslot.iss rfl), (fun hs => by cases hs)⟩
  obtain ⟨hno, hw⟩ := hslot.synrcvd rfl
  exact ⟨hno, hw.una_le, hw.nxt_le, hw.room, hw.sUna, hw.sNxt, hw.sEnd, hw.holds⟩

theorem SendOk.timer {net : Net n} (h : SendOk net) (now : BitVec 32) (i : Fin n) :
    SendOk (tcpTimer now net i) := by
  unfold tcpTimer
  dsimp only
  split
  · have hnote : SlotSend i (net.conns i) (.expire i (net.conns i).gen :: net.log) :=
      (h.slots i).note fun g hg => by cases hg; exact ⟨Nat.le_refl _, rfl⟩
    have hseg : CarriesStream (.expire i (net.conns i).gen) net.log := by
      rintro _ _ _ _ hs
      cases hs
    split
    · exact h.noteSet i rfl hseg hnote.reset
    · have h1 := h.noteSet i rfl hseg (hnote.rewind ((net.conns i).rexmitCount + 1)
        (net.conns i).rexmitAt)
      split
      · have h2 := h1.send i 0x12 true
        refine h2.set i ?_
        have hslot := h2.slots i
        rw [tcpSendSeg_conns, Net.set_conns_self] at hslot
        exact hslot.congr rfl
      · refine h1.set i ?_
        have hslot := h1.slots i
        rw [Net.set_conns_self] at hslot
        exact hslot.congr rfl
  · exact h

theorem SendOk.output {net : Net n} (h : SendOk net) (now : BitVec 32) (i : Fin n) {k : Nat}
    (hst : (net.conns i).tstate = .estab) (hk : k ≤ (net.conns i).unsent) :
    SendOk (tcpOutputOne now net i k) := by
  obtain ⟨b, una, nxt, he⟩ := (h.slots i).estab hst
  have hw := he.window
  have hk' := hk
  rw [hw.unsent_eq] at hk'
  have hnl := hw.nxt_le
  refine ⟨@slots_step n net (tcpOutputOne now net i k) i h.slots
    (fun j hj => by simp [tcpOutputOne, hj]) ((OwnLog.refl i _).cons ?_) ?_, ?_, h.segs⟩
  · rintro j g hg
    cases hg
    rfl
  · have hnote : SlotSend i (net.conns i) (tcpOutputOne now net i k).log :=
      (h.slots i).note fun g hg => by cases hg; exact ⟨Nat.le_refl _, rfl⟩
    simp only [tcpOutputOne, Net.set_conns_self]
    exact hnote.output hst hk _ _
  · rintro i' g ipId s hs hdata
    cases hs
    refine ⟨b, nxt, he.entry, he.unique, he.sndNxt, ?_, ?_⟩
    · rw [Conn.mkSeg, Ring.length_read]
      omega
    · rw [Conn.mkSeg, Ring.length_read, hw.sNxt, Ring.read_mod]
      exact hw.holds.read_eq hw.una_le (by omega)

/-- Every act keeps the invariant. -/
theorem SendOk.act {net net' : Net n} (h : SendOk net) (ha : Act S T net net') : SendOk net' := by
  cases ha with
  | work w => exact ⟨h.slots, h.segs⟩
  | refuse ipId s =>
      refine ⟨fun j => (h.slots j).note fun g hg => ?_, ?_, h.segs⟩
      · cases hg
      · rintro _ _ _ _ hs
        cases hs
  | arp frame =>
      refine ⟨fun j => (h.slots j).note fun g hg => ?_, ?_, h.segs⟩
      · cases hg
      · rintro _ _ _ _ hs
        cases hs
  | reset i => exact h.set i (h.slots i).reset
  | send i flags mss => exact h.send i flags mss
  | syn now hd i hs => exact h.syn now hd i
  | estab i hst =>
      exact h.noteSet i rfl (by rintro _ _ _ _ hs; cases hs) ((h.slots i).establish hst true 0)
  | ack now hd i hst => exact h.set i ((h.slots i).ack hst now hd)
  | store i c hst hc => exact h.set i ((h.slots i).congr (by rw [hc.eq]; rfl))
  | get i hne => exact h.set i ((h.slots i).congr rfl)
  | timer now i _ hex => exact h.timer now i
  | output now i k hst hk => exact h.output now i hst hk
  | append kind i b hroom hadm =>
      exact h.noteSet i rfl (by rintro _ _ _ _ hs; cases hs) ((h.slots i).append kind hroom b)
  | taken i => exact h.set i ((h.slots i).congr rfl)

theorem SendOk.slotReady {net : Net n} (h : SendOk net) (i : Fin n) (v : Bool) :
    SendOk (netSlotReady net i v) := by
  unfold netSlotReady
  dsimp only
  split
  · refine h.noteSet i rfl (by rintro _ _ _ _ hs; cases hs) ?_
    refine ((h.slots i).note fun g hg => ?_).congr rfl
    cases hg
    exact ⟨Nat.le_refl _, rfl⟩
  · exact h.set i ((h.slots i).congr rfl)

/-- The invariant holds in every state of every run. -/
theorem NetReach.sendOk {net : Net n} (h : NetReach net) : SendOk net := by
  refine h.induct (fun m ip p => ?_) fun op net hn => ?_
  · refine ⟨fun i => ⟨?_, ?_, ?_, ?_⟩, trivial⟩
    · intro e he
      cases he
    · intro hs
      cases hs
    · intro hs
      cases hs
    · intro hs
      cases hs
  · by_cases hop : ∃ i v, op = .slotReady i v
    · obtain ⟨i, v, rfl⟩ := hop
      exact hn.slotReady i v
    · push Not at hop
      have hacts : Acts (fun _ _ => True) True net (op.run net) :=
        NetOp.run_acts hop (fun _ _ _ => trivial) fun _ _ _ _ _ => trivial
      exact hacts.preserves (fun _ _ hp ha => hp.act ha) hn

/-! ## What the peer sees -/

/-- The guarantees of the send path, in one state of the stack. -/
structure SendReliable (net : Net n) : Prop where
  /-- A data segment of a connection that has carried fewer than `2^32` bytes
  carries the bytes of its stream at the offset of its sequence number from `b`,
  the value of `snd_una` at entry to `ESTAB`. -/
  carries : ∀ i g ipId s past, (NetEvent.seg i g ipId s :: past) <:+ net.log → s.data ≠ [] →
    ∃ b, NetEvent.estab i g b ∈ past ∧ (∀ b', NetEvent.estab i g b' ∈ past → b' = b) ∧
      ((streamOf i g past).length < 2 ^ 32 →
        (s.seq - b).toNat + s.data.length ≤ (streamOf i g past).length ∧
        s.data = ((streamOf i g past).drop (s.seq - b).toNat).take s.data.length)
  /-- Two transmissions of one sequence number of a connection carry the same
  byte. -/
  same : ∀ i g, (streamOf i g net.log).length < 2 ^ 32 →
    ∀ ipId s ipId' s', NetEvent.seg i g ipId s ∈ net.log → NetEvent.seg i g ipId' s' ∈ net.log →
      ∀ p (hp : p < s.data.length) q (hq : q < s'.data.length),
        s.seq + BitVec.ofNat 32 p = s'.seq + BitVec.ofNat 32 q → s.data[p] = s'.data[q]
  /-- The ring of an established connection holds all unacknowledged bytes. -/
  ring : ∀ i, (net.conns i).tstate = .estab →
    Ring.read SND_SZ (net.conns i).sbuf (net.conns i).sUna (net.conns i).used =
      (streamOf i (net.conns i).gen net.log).drop
        ((streamOf i (net.conns i).gen net.log).length - (net.conns i).used)
  /-- Sequence numbers and ring indices stay in step, and in ring order. -/
  order : ∀ i, (net.conns i).tstate = .estab →
    ((net.conns i).sndNxt - (net.conns i).sndUna).toNat =
        Ring.dist SND_SZ (net.conns i).sNxt (net.conns i).sUna ∧
      Ring.dist SND_SZ (net.conns i).sNxt (net.conns i).sUna ≤ (net.conns i).used

/-- Below `2^32` bytes the offset of a segment is the distance of its sequence
number from the base. -/
theorem CarriesStream.offset {i : Fin n} {g ipId : Nat} {s : Seg} {past : List (NetEvent n)}
    (h : CarriesStream (.seg i g ipId s) past) (hdata : s.data ≠ []) :
    ∃ b, NetEvent.estab i g b ∈ past ∧ (∀ b', NetEvent.estab i g b' ∈ past → b' = b) ∧
      ((streamOf i g past).length < 2 ^ 32 →
        (s.seq - b).toNat + s.data.length ≤ (streamOf i g past).length ∧
        s.data = ((streamOf i g past).drop (s.seq - b).toNat).take s.data.length) := by
  obtain ⟨b, k, hmem, huniq, hseq, hlen, hbytes⟩ := h i g ipId s rfl hdata
  refine ⟨b, hmem, huniq, fun hsmall => ?_⟩
  have hk : (s.seq - b).toNat = k := by
    rw [hseq, BitVec.add_comm, BitVec.add_sub_cancel, BitVec.toNat_ofNat]
    exact Nat.mod_eq_of_lt (by omega)
  rw [hk]
  exact ⟨hlen, hbytes⟩

/-- A byte of a data segment is the byte of the whole stream at its offset. -/
theorem SendOk.data_getElem {net : Net n} (h : SendOk net) {i : Fin n} {g ipId : Nat} {s : Seg}
    {past : List (NetEvent n)} (hs : (NetEvent.seg i g ipId s :: past) <:+ net.log)
    (hsmall : (streamOf i g net.log).length < 2 ^ 32) {p : Nat} (hp : p < s.data.length) :
    ∃ b, NetEvent.estab i g b ∈ past ∧ (∀ b', NetEvent.estab i g b' ∈ past → b' = b) ∧
      ∃ hlt : (s.seq - b).toNat + p < (streamOf i g net.log).length,
        s.data[p] = (streamOf i g net.log)[(s.seq - b).toNat + p] := by
  have hdata : s.data ≠ [] := by
    intro hnil
    simp [hnil] at hp
  obtain ⟨b, hmem, huniq, hoff⟩ := (h.segs.at hs).offset hdata
  have hpre : streamOf i g past <+: streamOf i g net.log :=
    streamOf_mono ((List.suffix_cons _ _).trans hs)
  have hle := hpre.length_le
  obtain ⟨hlen, hbytes⟩ := hoff (by omega)
  refine ⟨b, hmem, huniq, by omega, ?_⟩
  have hget : s.data[p] = (streamOf i g past)[(s.seq - b).toNat + p] := by
    have hb : s.data[p]? = (((streamOf i g past).drop (s.seq - b).toNat).take s.data.length)[p]? :=
      congrArg (·[p]?) hbytes
    rw [List.getElem?_take_of_lt hp, List.getElem?_drop, List.getElem?_eq_getElem hp,
      List.getElem?_eq_getElem (by omega)] at hb
    exact Option.some.inj hb
  rw [hget]
  exact hpre.getElem (by omega)

/-- In every run of the stack the send path is reliable. -/
theorem tcp_send_reliable {net : Net n} (h : NetReach net) : SendReliable net := by
  have hok := h.sendOk
  refine ⟨fun i g ipId s past hs hdata => (hok.segs.at hs).offset hdata, ?_, ?_, ?_⟩
  · intro i g hsmall ipId s ipId' s' hs hs' p hp q hq hpos
    obtain ⟨newer, past, hsplit⟩ := List.append_of_mem hs
    obtain ⟨newer', past', hsplit'⟩ := List.append_of_mem hs'
    have hsuf : (NetEvent.seg i g ipId s :: past) <:+ net.log := ⟨newer, hsplit.symm⟩
    have hsuf' : (NetEvent.seg i g ipId' s' :: past') <:+ net.log := ⟨newer', hsplit'.symm⟩
    obtain ⟨b, hb, hbu, hlt, hget⟩ := hok.data_getElem hsuf hsmall hp
    obtain ⟨b', hb', hbu', hlt', hget'⟩ := hok.data_getElem hsuf' hsmall hq
    -- the two segments saw the same base, since one history extends the other
    have hbb : b = b' := by
      have hp1 : past <:+ net.log := (List.suffix_cons _ _).trans hsuf
      have hp2 : past' <:+ net.log := (List.suffix_cons _ _).trans hsuf'
      rcases List.suffix_or_suffix_of_suffix hp1 hp2 with hle | hle
      · exact hbu' b (hle.subset hb)
      · exact (hbu b' (hle.subset hb')).symm
    subst hbb
    have hk : (s.seq - b).toNat + p = (s'.seq - b).toNat + q := by
      have h1 : s.seq - b + BitVec.ofNat 32 p = s'.seq - b + BitVec.ofNat 32 q := by bv_omega
      have h2 := congrArg BitVec.toNat h1
      rw [BitVec.toNat_add, BitVec.toNat_add, BitVec.toNat_ofNat, BitVec.toNat_ofNat,
        Nat.mod_eq_of_lt (a := p) (by omega), Nat.mod_eq_of_lt (a := q) (by omega),
        Nat.mod_eq_of_lt (by omega), Nat.mod_eq_of_lt (by omega)] at h2
      exact h2
    rw [hget, hget']
    exact getElem_congr_idx hk
  · intro i hst
    obtain ⟨b, una, nxt, he⟩ := (hok.slots i).estab hst
    have hw := he.window
    have hle := hw.una_le.trans hw.nxt_le
    rw [hw.used_eq, hw.sUna, Ring.read_mod, hw.holds.read_eq (Nat.le_refl _) (by omega)]
    have hun : (streamOf i (net.conns i).gen net.log).length -
        ((streamOf i (net.conns i).gen net.log).length - una) = una := by omega
    rw [hun, List.take_of_length_le (by simp)]
  · intro i hst
    obtain ⟨b, una, nxt, he⟩ := (hok.slots i).estab hst
    have hw := he.window
    have hle := hw.una_le
    have hnl := hw.nxt_le
    have hroom := hw.room
    rw [hw.used_eq, he.sndUna, he.sndNxt, hw.sNxt, hw.sUna,
      Ring.dist_mod hw.una_le (by omega)]
    refine ⟨?_, by omega⟩
    unfold SND_SZ at hroom
    have hpos : BitVec.ofNat 32 nxt = BitVec.ofNat 32 una + BitVec.ofNat 32 (nxt - una) := by
      rw [← BitVec.ofNat_add]
      congr 1
      omega
    rw [hpos, ← BitVec.add_assoc, BitVec.add_comm (b + _), BitVec.add_sub_cancel,
      BitVec.toNat_ofNat]
    exact Nat.mod_eq_of_lt (by omega)

/-- A client connects, a byte is queued for it and sent, and sent again when the
timer expires. -/
def sendRun : List (NetOp 3) :=
  let us := [10, 0, 2, 15]
  let peer := [10, 0, 2, 2]
  [.poll 0 (some (peerFrame peer us 1000 23 5 0 0x02 [])),
    .poll 1 (some (peerFrame peer us 1000 23 6 0x13701 0x10 [])),
    .putcSlot 0 65, .flush 1, .poll 20 none]

theorem tcp_send_reliable_sendRun :
    SendReliable (netRun sendRun (netOpen (List.replicate 6 0) [10, 0, 2, 15] 23)) ∧
      ((netRun sendRun (netOpen (List.replicate 6 0) [10, 0, 2, 15] 23)).log.filterMap
        fun e => match e with
          | .seg _ _ _ s => if s.data = [] then none else some (s.seq, s.data)
          | _ => none) = [(0x13701, [65]), (0x13701, [65])] :=
  ⟨tcp_send_reliable ⟨_, _, _, _, rfl⟩, by decide +kernel⟩

end Dossh
