import Dossh.Net.Broadcast
import Dossh.Render.Frame
import Dossh.Telnet.Keyboard

/-!
# The outbound telnet stream

The ring of a slot carries the replies of the negotiation, the texts of the password gate and the
broadcast.  Replies have three bytes and `put3` writes them one by one without looking at the
results.  A ring with one or two free bytes takes only the first of them, and the client reads
what comes next as the rest of the command.

The stream of a slot is kept whole in every run in which each `put3` finds no room at all or room
for three bytes.  From its admission on it is then the broadcast with replies in between.
-/

namespace Dossh

variable {n : Nat}

/-! ## Decoding -/

/-- The stream ends between commands, and without its commands it is `data`. -/
def TelDecoded (stream data : List UInt8) : Prop :=
  iacAfter stream = .data ∧ stripIac .data stream = data

theorem TelDecoded.nil : TelDecoded [] [] := ⟨rfl, rfl⟩

theorem TelDecoded.plain {stream data : List UInt8} (h : TelDecoded stream data) {b : UInt8}
    (hb : b ≠ IAC) : TelDecoded (stream ++ [b]) (data ++ [b]) := by
  have hstrip := stripIac_append b .data stream
  rw [← iacAfter, h.1, h.2] at hstrip
  refine ⟨?_, ?_⟩
  · rw [iacAfter_concat, h.1]
    simp [iacNext, hb]
  · rw [hstrip]
    simp [isData, hb]

/-- A negotiation command adds no data. -/
theorem TelDecoded.command {stream data : List UInt8} (h : TelDecoded stream data) {v : UInt8}
    (hv : WILL ≤ v ∧ v ≤ DONT) (opt : UInt8) : TelDecoded (stream ++ [IAC, v, opt]) data := by
  have hverb : v ≠ IAC ∧ v ≠ SB := by
    refine ⟨?_, ?_⟩
    · rintro rfl
      exact absurd hv (by decide)
    · rintro rfl
      exact absurd hv (by decide)
  have hafter : iacAfter (stream ++ [IAC]) = .iac := by
    rw [iacAfter_concat, h.1]
    rfl
  have hafter' : iacAfter (stream ++ [IAC] ++ [v]) = .verb := by
    rw [iacAfter_concat, hafter]
    simp [iacNext, hverb, hv]
  have hlist : stream ++ [IAC, v, opt] = stream ++ [IAC] ++ [v] ++ [opt] := by simp
  rw [hlist]
  refine ⟨?_, ?_⟩
  · rw [iacAfter_concat, hafter']
    rfl
  · rw [stripIac_append, stripIac_append, stripIac_append, ← iacAfter, ← iacAfter, ← iacAfter, h.1,
      hafter, hafter', h.2]
    simp [isData, hverb]

/-! ## The history of one slot -/

/-- The event neither queues a byte for the slot nor admits it. -/
def NetEvent.Aside (i : Fin n) (e : NetEvent n) : Prop := ∀ g, e.conn? = some (i, g) → e.mute = true

/-- The bytes queued for a connection since it was admitted, oldest first. -/
def streamSince (i : Fin n) (gen : Nat) : List (NetEvent n) → List UInt8
  | [] => []
  | .admitted j g :: past => if j = i ∧ g = gen then [] else streamSince i gen past
  | .append _ j g b :: past =>
      if j = i ∧ g = gen then streamSince i gen past ++ [b] else streamSince i gen past
  | _ :: past => streamSince i gen past

/-- What the history says about the slot did not change. -/
structure LogSame (i : Fin n) (log log' : List (NetEvent n)) : Prop where
  stream : ∀ g, streamOf i g log' = streamOf i g log
  since : ∀ g, streamSince i g log' = streamSince i g log
  admitted : ∀ g, NetEvent.admitted i g ∈ log' ↔ NetEvent.admitted i g ∈ log

namespace LogSame

variable {i : Fin n} {log log' log'' : List (NetEvent n)}

theorem refl (i : Fin n) (log : List (NetEvent n)) : LogSame i log log :=
  ⟨fun _ => rfl, fun _ => rfl, fun _ => Iff.rfl⟩

theorem trans (h : LogSame i log log') (h' : LogSame i log' log'') : LogSame i log log'' :=
  ⟨fun g => (h'.stream g).trans (h.stream g), fun g => (h'.since g).trans (h.since g),
    fun g => (h'.admitted g).trans (h.admitted g)⟩

theorem cons {e : NetEvent n} (he : e.Aside i) (log : List (NetEvent n)) :
    LogSame i log (e :: log) := by
  cases e with
  | admitted j g =>
      have hne : ∀ g', ¬ (j = i ∧ g = g') := by
        rintro g' ⟨rfl, rfl⟩
        cases he g rfl
      refine ⟨fun _ => rfl, fun g' => ?_, fun g' => ?_⟩
      · rw [streamSince, if_neg (hne g')]
      · rw [List.mem_cons]
        refine or_iff_right fun heq => hne g' ?_
        cases heq
        exact ⟨rfl, rfl⟩
  | append kind j g b =>
      have hne : ∀ g', ¬ (j = i ∧ g = g') := by
        rintro g' ⟨rfl, rfl⟩
        cases he g rfl
      refine ⟨fun g' => ?_, fun g' => ?_, fun g' => ?_⟩
      · rw [streamOf, if_neg (hne g')]
      · rw [streamSince, if_neg (hne g')]
      · simp
  | _ => exact ⟨fun _ => rfl, fun _ => rfl, fun _ => by simp⟩

theorem append : ∀ {es : List (NetEvent n)}, (∀ e ∈ es, e.Aside i) → ∀ log, LogSame i log (es ++ log)
  | [], _, log => refl i log
  | e :: _, hes, log =>
      (append (fun e' he' => hes e' (List.mem_cons_of_mem _ he')) log).trans
        (cons (hes e List.mem_cons_self) _)

end LogSame

theorem Net.Mute.logSame {net net' : Net n} (h : net.Mute net') (i : Fin n) :
    LogSame i net.log net'.log := by
  obtain ⟨es, hlog, hes⟩ := h
  rw [hlog]
  exact .append (fun e he _ _ => hes e he) _

/-! ## Unicast -/

/-- The part of a connection that sending does not change. -/
abbrev Conn.life (c : Conn) : TState × Nat × Bool × Bool × Nat × Nat :=
  (c.tstate, c.gen, c.justEstab, c.ready, c.rTail, c.rHead)

/-- The bytes went to the ring of the slot. -/
structure Net.Queues (i : Fin n) (bs : List UInt8) (net net' : Net n) : Prop where
  others : ∀ j, j ≠ i → net'.conns j = net.conns j
  life : (net'.conns i).life = (net.conns i).life
  log : net'.log = (bs.map (.append .unicast i (net.conns i).gen)).reverse ++ net.log

namespace Net.Queues

variable {i : Fin n} {bs bs' : List UInt8} {net net' net'' : Net n}

theorem refl (i : Fin n) (net : Net n) : Net.Queues i [] net net := ⟨fun _ _ => rfl, rfl, rfl⟩

theorem trans (h : Net.Queues i bs net net') (h' : Net.Queues i bs' net' net'') :
    Net.Queues i (bs ++ bs') net net'' := by
  have hgen : (net'.conns i).gen = (net.conns i).gen := congrArg (fun l => l.2.1) h.life
  refine ⟨fun j hj => (h'.others j hj).trans (h.others j hj), h'.life.trans h.life, ?_⟩
  rw [h'.log, h.log, hgen, List.map_append, List.reverse_append, List.append_assoc]

theorem logSame (h : Net.Queues i bs net net') {j : Fin n} (hj : j ≠ i) :
    LogSame j net.log net'.log := by
  rw [h.log]
  refine .append (fun e he g hg => ?_) _
  rw [List.mem_reverse, List.mem_map] at he
  obtain ⟨b, -, rfl⟩ := he
  cases hg
  exact absurd rfl hj

end Net.Queues

theorem netTxPutcSlot_queues (net : Net n) (i : Fin n) (b : UInt8) :
    if 0 < netTxRoomSlot net i then
      Net.Queues i [b] net (netTxPutcSlot net i b).2 ∧
        netTxRoomSlot (netTxPutcSlot net i b).2 i = netTxRoomSlot net i - 1
    else (netTxPutcSlot net i b).2 = net := by
  unfold netTxPutcSlot netTxRoomSlot
  split
  next hroom =>
    have hfree : (net.conns i).used < SND_SZ - 1 := by omega
    rw [if_neg (by omega)]
    refine ⟨⟨fun j hj => ?_, ?_, rfl⟩, ?_⟩
    · rw [ringAppend, Net.set_conns_ne _ _ hj]
      rfl
    · rw [ringAppend, Net.set_conns_self]
    · rw [ringAppend, Net.set_conns_self]
      have hused : Ring.dist SND_SZ (((net.conns i).sEnd + 1) % SND_SZ) (net.conns i).sUna =
          (net.conns i).used + 1 := Ring.dist_succ (Nat.add_lt_of_lt_sub hfree)
      show SND_SZ - 1 - Ring.dist SND_SZ (((net.conns i).sEnd + 1) % SND_SZ) (net.conns i).sUna = _
      rw [hused]
      omega
  next hroom => rw [if_pos (by omega)]

/-- The stack after the bytes were sent to a slot, as far as they find room. -/
def sayNet (net : Net n) (i : Fin n) (s : List UInt8) : Net n :=
  s.foldl (fun net b => (netTxPutcSlot net i b).2) net

theorem auSay_net (i : Fin n) : ∀ (s : List UInt8) (st : Server n),
    (auSay st i s).net = sayNet st.net i s
  | [], _ => rfl
  | b :: s, st => auSay_net i s (st.putc i b)

theorem auSay_render (i : Fin n) : ∀ (s : List UInt8) (st : Server n),
    (auSay st i s).render = st.render
  | [], _ => rfl
  | b :: s, st => auSay_render i s (st.putc i b)

/-- Some of the bytes are queued. -/
theorem sayNet_queues (i : Fin n) : ∀ (s : List UInt8) (net : Net n),
    ∃ bs, bs ⊆ s ∧ Net.Queues i bs net (sayNet net i s)
  | [], net => ⟨[], by simp, .refl i net⟩
  | b :: s, net => by
      obtain ⟨bs, hbs, hq⟩ := sayNet_queues i s (netTxPutcSlot net i b).2
      have hput := netTxPutcSlot_queues net i b
      split at hput
      · exact ⟨b :: bs, List.cons_subset_cons b hbs, hput.1.trans hq⟩
      · rw [hput] at hq
        refine ⟨bs, fun x hx => List.mem_cons_of_mem b (hbs hx), ?_⟩
        show Net.Queues i bs net (sayNet (netTxPutcSlot net i b).2 i s)
        rw [hput]
        exact hq

/-- `put3` finds no room or room for its three bytes. -/
def PutsWhole (net : Net n) (i : Fin n) : Prop := netTxRoomSlot net i ≠ 1 ∧ netTxRoomSlot net i ≠ 2

instance (net : Net n) (i : Fin n) : Decidable (PutsWhole net i) :=
  inferInstanceAs (Decidable (_ ∧ _))

/-- How many of three bytes are queued. -/
theorem put3_queues (net : Net n) (i : Fin n) (a b c : UInt8) :
    Net.Queues i ([a, b, c].take (netTxRoomSlot net i)) net (sayNet net i [a, b, c]) := by
  have hstep : ∀ (s : List UInt8) (net : Net n),
      Net.Queues i (s.take (netTxRoomSlot net i)) net (sayNet net i s) := by
    intro s
    induction s with
    | nil =>
        intro net
        rw [List.take_nil]
        exact .refl i net
    | cons x s ih =>
        intro net
        have hput := netTxPutcSlot_queues net i x
        split at hput
        next hroom =>
          obtain ⟨hq, hless⟩ := hput
          have hrest := ih (netTxPutcSlot net i x).2
          rw [hless] at hrest
          have htake : (x :: s).take (netTxRoomSlot net i) =
              [x] ++ s.take (netTxRoomSlot net i - 1) := by
            conv => lhs; rw [← Nat.succ_pred_eq_of_pos hroom]
            rfl
          rw [htake]
          exact hq.trans hrest
        next hroom =>
          have hzero : netTxRoomSlot net i = 0 := by omega
          have hrest := ih (netTxPutcSlot net i x).2
          rw [hput, hzero] at hrest
          rw [hzero]
          show Net.Queues i [] net (sayNet (netTxPutcSlot net i x).2 i s)
          rw [hput]
          exact hrest
  exact hstep _ net

/-! ## The stream of one slot -/

/-- The stream of the connection on a slot.  It is decoded into complete commands, and since the
connection was admitted its data is `w`. -/
structure Wired (i : Fin n) (c : Conn) (au : AuState) (log : List (NetEvent n))
    (w : Nat → List UInt8) : Prop where
  old : ∀ g, c.gen < g → streamOf i g log = [] ∧ NetEvent.admitted i g ∉ log
  fresh : c.tstate = .synrcvd ∨ c.justEstab = true → NetEvent.admitted i c.gen ∉ log
  complete : iacAfter (streamOf i c.gen log) = .data
  screen : c.tstate = .estab → NetEvent.admitted i c.gen ∈ log →
    c.ready = true ∧ au = .ok ∧ TelDecoded (streamSince i c.gen log) (w c.gen)
  ring : c.rTail ≠ c.rHead → c.tstate = .estab

namespace Wired

variable {i : Fin n} {c c' : Conn} {au : AuState} {log log' : List (NetEvent n)}
  {w : Nat → List UInt8} {T : Prop} {S : Fin n → Conn → Prop}

theorem logSame (h : Wired i c au log w) (hlog : LogSame i log log') : Wired i c au log' w := by
  refine ⟨fun g hg => ?_, fun hnew => ?_, ?_, fun hst hadm => ?_, h.ring⟩
  · rw [hlog.stream, hlog.admitted]
    exact h.old g hg
  · rw [hlog.admitted]
    exact h.fresh hnew
  · rw [hlog.stream]
    exact h.complete
  · rw [hlog.since]
    exact h.screen hst ((hlog.admitted _).mp hadm)

/-- The connection is given back. -/
theorem closed (h : Wired i c au log w) {au' : AuState} {w' : Nat → List UInt8}
    (hgen : c'.gen = c.gen) (hjust : c'.justEstab = c.justEstab) (hst : c'.tstate = .listen)
    (hring : c'.rTail = c'.rHead) : Wired i c' au' log w' := by
  refine ⟨?_, ?_, ?_, ?_, fun hne => absurd hring hne⟩
  · rw [hgen]
    exact h.old
  · rw [hst, hgen, hjust]
    rintro (hsyn | hnew)
    · cases hsyn
    · exact h.fresh (.inr hnew)
  · rw [hgen]
    exact h.complete
  · rw [hst]
    rintro ⟨⟩

/-- Only what the invariant does not read changed. -/
theorem same (h : Wired i c au log w) (hgen : c'.gen = c.gen) (hst : c'.tstate = c.tstate)
    (hready : c'.ready = c.ready) (hjust : c'.justEstab = true → c.justEstab = true)
    (hring : c'.rTail ≠ c'.rHead → c.tstate = .estab) : Wired i c' au log w := by
  refine ⟨?_, ?_, ?_, ?_, ?_⟩
  · rw [hgen]
    exact h.old
  · rw [hst, hgen]
    exact fun hnew => h.fresh (hnew.imp_right hjust)
  · rw [hgen]
    exact h.complete
  · rw [hst, hgen, hready]
    exact h.screen
  · rw [hst]
    exact hring

theorem step (h : Wired i c au log w) (hstep : Conn.Step S T i c c') : Wired i c' au log w := by
  cases hstep with
  | refl => exact h
  | reset => exact h.closed rfl rfl rfl rfl
  | syn now hd hs =>
      refine ⟨fun g hg => h.old g (Nat.lt_of_succ_lt hg), fun _ => ?_, ?_, ?_, fun hne => ?_⟩
      · exact (h.old _ (Nat.lt_succ_self _)).2
      · have hnil := (h.old _ (Nat.lt_succ_self _)).1
        show iacAfter (streamOf i (c.gen + 1) log) = .data
        rw [hnil]
        rfl
      · rintro ⟨⟩
      · exact absurd rfl hne
  | estab hst =>
      refine ⟨h.old, fun _ => h.fresh (.inl hst), h.complete, fun _ hadm => ?_, fun _ => rfl⟩
      exact absurd hadm (h.fresh (.inl hst))
  | ack now hd hst =>
      unfold tcpInAck
      split
      · exact h.same rfl rfl rfl id h.ring
      · exact h
  | store c' hst hc =>
      have heq := hc.eq
      refine h.same ?_ ?_ ?_ ?_ fun _ => hst
      · rw [heq]
      · rw [heq]
      · rw [heq]
      · rw [heq]
        exact id
  | get hne => exact h.same rfl rfl rfl id fun _ => h.ring hne
  | reap hT now hex hmax => exact h.closed rfl rfl rfl rfl
  | rewind hT now hex hmax => exact h.same rfl rfl rfl id h.ring
  | output now k hst hk => exact h.same rfl rfl rfl id h.ring
  | append b hroom => exact h.same rfl rfl rfl id h.ring
  | taken => exact h.same rfl rfl rfl nofun h.ring

/-- The stack went on by itself. -/
theorem acts {net net' : Net n} (h : Wired i (net.conns i) au net.log w) (ha : Acts S T net net')
    (hmute : net.Mute net') : Wired i (net'.conns i) au net'.log w := by
  have hconn : Wired i (net'.conns i) au net.log w :=
    Acts.preserves (P := fun net' => Wired i (net'.conns i) au net.log w)
      (fun _ _ h hact => h.step (hact.conn_step i)) ha h
  exact hconn.logSame (hmute.logSame i)

end Wired

/-- The bytes of a unicast in the history. -/
theorem streamOf_queues {i : Fin n} {bs : List UInt8} {net net' : Net n}
    (h : Net.Queues i bs net net') (g : Nat) :
    streamOf i g net'.log =
      streamOf i g net.log ++ (if g = (net.conns i).gen then bs else []) ∧
    (streamSince i g net'.log =
      streamSince i g net.log ++ if g = (net.conns i).gen then bs else []) ∧
    (NetEvent.admitted i g ∈ net'.log ↔ NetEvent.admitted i g ∈ net.log) := by
  rw [h.log]
  generalize (net.conns i).gen = gen
  clear h
  induction bs using List.reverseRecOn with
  | nil => simp
  | append_singleton bs b ih =>
      obtain ⟨hstream, hsince, hadm⟩ := ih
      rw [List.map_append, List.reverse_append]
      simp only [List.map_singleton, List.reverse_singleton, List.cons_append, List.nil_append,
        streamOf, streamSince, List.mem_cons, reduceCtorEq, false_or, hadm, true_and]
      by_cases hg : g = gen
      · subst hg
        simp only [if_true] at hstream hsince ⊢
        rw [hstream, hsince]
        simp
      · simp only [if_neg hg, if_neg (Ne.symm hg)] at hstream hsince ⊢
        rw [hstream, hsince]
        simp

namespace Wired

variable {i : Fin n} {au : AuState} {w : Nat → List UInt8} {net net' : Net n} {bs : List UInt8}

/-- Bytes are queued that keep the decoder between commands.  If the connection was admitted they
hold no data. -/
theorem queues (h : Wired i (net.conns i) au net.log w) (hq : Net.Queues i bs net net')
    (hcomplete : ∀ s d, TelDecoded s d → iacAfter (s ++ bs) = .data)
    (hscreen : (net.conns i).tstate = .estab → NetEvent.admitted i (net.conns i).gen ∈ net.log →
      ∀ s d, TelDecoded s d → TelDecoded (s ++ bs) d) :
    Wired i (net'.conns i) au net'.log w := by
  have hlife := hq.life
  simp only [Conn.life, Prod.mk.injEq] at hlife
  obtain ⟨hst, hgen, hjust, hready, ht, hh⟩ := hlife
  refine ⟨fun g hg => ?_, fun hnew => ?_, ?_, fun hestab hadm => ?_, fun hne => ?_⟩
  · rw [hgen] at hg
    rw [(streamOf_queues hq g).1, (streamOf_queues hq g).2.2, if_neg (Nat.ne_of_gt hg),
      List.append_nil]
    exact h.old g hg
  · rw [hgen, (streamOf_queues hq _).2.2]
    rw [hst, hjust] at hnew
    exact h.fresh hnew
  · rw [hgen, (streamOf_queues hq _).1, if_pos rfl]
    exact hcomplete _ _ ⟨h.complete, rfl⟩
  · rw [hst] at hestab
    rw [hgen, (streamOf_queues hq _).2.2] at hadm
    obtain ⟨hr, hau, hdec⟩ := h.screen hestab hadm
    rw [hgen, hready, (streamOf_queues hq _).2.1, if_pos rfl]
    exact ⟨hr, hau, hscreen hestab hadm _ _ hdec⟩
  · rw [ht, hh] at hne
    rw [hst]
    exact h.ring hne

theorem decoded_text {bs : List UInt8} (hbs : IAC ∉ bs) : ∀ s d, TelDecoded s d →
    iacAfter (s ++ bs) = .data := by
  induction bs with
  | nil =>
      intro s d h
      rw [List.append_nil]
      exact h.1
  | cons b bs ih =>
      intro s d h
      rw [List.mem_cons, not_or] at hbs
      rw [List.append_cons]
      exact ih hbs.2 _ _ (h.plain (Ne.symm hbs.1))

/-- A text for a connection that was not admitted. -/
theorem say (h : Wired i (net.conns i) au net.log w) {s : List UInt8} (hs : IAC ∉ s)
    (hnot : (net.conns i).tstate = .estab → NetEvent.admitted i (net.conns i).gen ∉ net.log) :
    Wired i ((sayNet net i s).conns i) au (sayNet net i s).log w := by
  obtain ⟨bs, hbs, hq⟩ := sayNet_queues i s net
  exact h.queues hq (decoded_text fun hmem => hs (hbs hmem)) fun hst hadm => absurd hadm (hnot hst)

/-- A reply that `put3` queues as a whole or not at all. -/
theorem put3 (h : Wired i (net.conns i) au net.log w) (hwhole : PutsWhole net i) {v : UInt8}
    (hv : WILL ≤ v ∧ v ≤ DONT) (opt : UInt8) :
    Wired i ((sayNet net i [IAC, v, opt]).conns i) au (sayNet net i [IAC, v, opt]).log w := by
  have hq := put3_queues net i IAC v opt
  have htake : [IAC, v, opt].take (netTxRoomSlot net i) = [] ∨
      [IAC, v, opt].take (netTxRoomSlot net i) = [IAC, v, opt] := by
    obtain ⟨h1, h2⟩ := hwhole
    rcases Nat.lt_or_ge (netTxRoomSlot net i) 3 with hlt | hge
    · have hzero : netTxRoomSlot net i = 0 := by omega
      rw [hzero]
      exact .inl rfl
    · exact .inr (List.take_of_length_le hge)
  rcases htake with hnone | hall
  · rw [hnone] at hq
    refine h.queues hq (fun s d hd => ?_) fun _ _ s d hd => ?_
    · rw [List.append_nil]
      exact hd.1
    · rw [List.append_nil]
      exact hd
  · rw [hall] at hq
    exact h.queues hq (fun s d hd => (hd.command hv opt).1) fun _ _ s d hd => hd.command hv opt

theorem drop (h : Wired i (net.conns i) au net.log w) :
    Wired i ((netSlotDrop net i).conns i) au (netSlotDrop net i).log w := by
  have hconn : (netSlotDrop net i).conns i = tcpResetListen (net.conns i) := by
    unfold netSlotDrop
    dsimp only
    rw [Net.set_conns_self]
    split <;> rfl
  rw [hconn]
  have hclosed : Wired i (tcpResetListen (net.conns i)) au net.log w := h.closed rfl rfl rfl rfl
  exact hclosed.logSame ((netSlotDrop_mute net i).logSame i)

/-- An established connection is admitted. -/
theorem admission (h : Wired i (net.conns i) au net.log w) {w' : Nat → List UInt8}
    (hst : (net.conns i).tstate ≠ .synrcvd) (hjust : (net.conns i).justEstab = false)
    (hw : w' (net.conns i).gen = []) :
    Wired i ((netSlotReady net i true).conns i) .ok (netSlotReady net i true).log w' := by
  have hconn : (netSlotReady net i true).conns i = { net.conns i with ready := true } := by
    rw [netSlotReady, Net.set_conns_self]
  have hlog : (netSlotReady net i true).log = .admitted i (net.conns i).gen :: net.log := rfl
  rw [hconn, hlog]
  refine ⟨fun g hg => ?_, fun hnew => ?_, h.complete, fun _ _ => ⟨rfl, rfl, ?_⟩, h.ring⟩
  · have hold := h.old g hg
    refine ⟨hold.1, ?_⟩
    rw [List.mem_cons, not_or]
    refine ⟨fun heq => ?_, hold.2⟩
    cases heq
    exact absurd hg (Nat.lt_irrefl _)
  · rcases hnew with hsyn | hnew
    · exact absurd hsyn hst
    · rw [hjust] at hnew
      cases hnew
  · show TelDecoded (streamSince i (net.conns i).gen (.admitted i (net.conns i).gen :: net.log))
      (w' (net.conns i).gen)
    rw [streamSince, if_pos ⟨rfl, rfl⟩, hw]
    exact .nil

end Wired

/-! ## One byte of a client -/

/-- What concerns the broadcast: `net_slot_ready`, `render_reset`, and a byte for which
`net_tx_putc` returned 1. -/
inductive CastEvent (n : Nat) where
  | ready (i : Fin n) (gen : Nat)
  | reset
  | cast (b : UInt8)
deriving DecidableEq

/-- The byte ends a line that is the password. -/
def admits (st : Server n) (i : Fin n) (b : UInt8) : Bool :=
  (st.slots i).iac = .data && (st.slots i).auState = .pw && b = 0x0D &&
    cstr (st.slots i).auBuf = cstr st.password

/-- The subnegotiation reports a new window size to an admitted slot that had one. -/
def TelSlot.newSize (s : TelSlot) : Bool :=
  let w := (s.sbBuf.getD 1 0).toNat * 256 + (s.sbBuf.getD 2 0).toNat
  let h := (s.sbBuf.getD 3 0).toNat * 256 + (s.sbBuf.getD 4 0).toNat
  (s.sbBuf.length ≥ 5 ∧ s.sbBuf.getD 0 0 = OPT_NAWS) ∧ (w ≠ s.nawsW ∨ h ≠ s.nawsH) ∧
    ((s.nawsW ≠ 0 ∨ s.nawsH ≠ 0) ∧ s.auState = .ok)

/-- The byte ends such a report. -/
def telResizes (st : Server n) (i : Fin n) (b : UInt8) : Bool :=
  (st.slots i).iac = .sbIac && b = SE && (st.slots i).newSize

/-- The byte ends a command that `respond` answers. -/
def answers (st : Server n) (i : Fin n) (b : UInt8) : Bool :=
  (st.slots i).iac = .verb && ((st.slots i).respond (st.slots i).verb b).1.isSome

/-- What `telnet_in` does to the broadcast, newest first. -/
def inEvents (st : Server n) (i : Fin n) (b : UInt8) : List (CastEvent n) :=
  if admits st i b then [.reset, .ready i (st.net.conns i).gen]
  else if telResizes st i b then [.reset]
  else []

/-- What `telnet_in` can do to the stack, the renderer and the gate of a slot.  The last argument
says whether a command is answered. -/
inductive WireStep (now : BitVec 32) (i : Fin n) (net : Net n) (r : Render) (au : AuState) :
    Net n → Render → AuState → List (CastEvent n) → Bool → Prop where
  | quiet : WireStep now i net r au net r au [] false
  | resized (hau : au = .ok) : WireStep now i net r au net (renderReset now r) au [.reset] false
  | dropped : WireStep now i net r au (netSlotDrop net i) r au [] false
  | admitted (hau : au = .pw) :
      WireStep now i net r au (netSlotReady net i true) (renderReset now r) .ok
        [.reset, .ready i (net.conns i).gen] false
  | refused (hau : au = .pw) (s : List UInt8) (hs : IAC ∉ s) :
      WireStep now i net r au (sayNet net i s) r au [] false
  | cutOff (hau : au = .pw) (s : List UInt8) (hs : IAC ∉ s) :
      WireStep now i net r au (netSlotDrop (sayNet net i s) i) r au [] false
  | answered (v opt : UInt8) (hv : WILL ≤ v ∧ v ≤ DONT) :
      WireStep now i net r au (sayNet net i [IAC, v, opt]) r au [] true

theorem respond_verb {s : TelSlot} {v opt a : UInt8} (h : (s.respond v opt).1 = some a) :
    WILL ≤ a ∧ a ≤ DONT := by
  unfold TelSlot.respond at h
  dsimp only at h
  repeat' split at h
  all_goals
    cases h
    try decide

theorem feedData_wire (now : BitVec 32) (st : Server n) (i : Fin n) (b : UInt8) :
    WireStep now i st.net st.render (st.slots i).auState (feedData now st i b).net
      (feedData now st i b).render ((feedData now st i b).slots i).auState
      (if (st.slots i).auState = .pw ∧ b = 0x0D ∧ cstr (st.slots i).auBuf = cstr st.password then
        [.reset, .ready i (st.net.conns i).gen] else []) false := by
  have htext : IAC ∉ ascii "\r\nAccess denied.\r\n" ∧
      IAC ∉ ascii "\r\nWrong password.\r\nPassword: " := by decide
  unfold feedData
  dsimp only
  cases hau : (st.slots i).auState with
  | ok =>
      simp only [if_true, reduceCtorEq, false_and, if_false]
      split
      · rw [hau]
        exact .dropped
      · rw [hau]
        exact .quiet
  | pw =>
      simp only [reduceCtorEq, if_false, true_and]
      split
      next hcr =>
        simp only [hcr, true_and]
        unfold auCheck
        dsimp only
        split
        next hmatch =>
          rw [Server.setSlot_slots_self]
          exact .admitted rfl
        next hmatch =>
          split
          · simp only [auSay_net, auSay_slots, auSay_render, Server.setSlot_slots_self, hau]
            exact .cutOff rfl _ htext.1
          · simp only [auSay_net, auSay_slots, auSay_render, Server.setSlot_slots_self, hau]
            exact .refused rfl _ htext.2
      next hcr =>
        simp only [hcr, false_and, if_false]
        repeat' split
        · rw [hau]
          exact .quiet
        · rw [Server.setSlot_slots_self]
          exact .quiet
        · rw [Server.setSlot_slots_self]
          exact .quiet
        · rw [hau]
          exact .quiet

/-- The wire does not see the decoder. -/
theorem WireStep.setIac {now : BitVec 32} {i : Fin n} {net : Net n} {r : Render} {au : AuState}
    {st : Server n} {es : List (CastEvent n)} {answered : Bool} (v : IacState)
    (h : WireStep now i net r au st.net st.render (st.slots i).auState es answered) :
    WireStep now i net r au (st.setIac i v).net (st.setIac i v).render
      ((st.setIac i v).slots i).auState es answered := by
  rw [Server.setIac, Server.setSlot_slots_self]
  exact h

theorem sbPush_wire (now : BitVec 32) (st : Server n) (i : Fin n) (b : UInt8) :
    WireStep now i st.net st.render (st.slots i).auState (sbPush st i b).net
      (sbPush st i b).render ((sbPush st i b).slots i).auState [] false := by
  unfold sbPush
  dsimp only
  split
  · rw [Server.setSlot_slots_self]
    exact .quiet
  · exact .quiet

theorem sbDone_wire (now : BitVec 32) (st : Server n) (i : Fin n) :
    WireStep now i st.net st.render (st.slots i).auState (sbDone now st i).net
      (sbDone now st i).render ((sbDone now st i).slots i).auState
      (if (st.slots i).newSize then [.reset] else []) false := by
  unfold sbDone TelSlot.newSize
  simp only [decide_eq_true_eq]
  split
  next hnaws =>
    split
    next hnew =>
      split
      next hhad =>
        rw [if_pos ⟨hnaws, hnew, hhad⟩, Server.setSlot_slots_self]
        exact .resized hhad.2
      next hhad =>
        rw [if_neg fun h => hhad h.2.2, Server.setSlot_slots_self]
        exact .quiet
    next hnew =>
      rw [if_neg fun h => hnew h.2.1]
      exact .quiet
  next hnaws =>
    rw [if_neg fun h => hnaws h.1]
    exact .quiet

theorem respond_wire (now : BitVec 32) (st : Server n) (i : Fin n) (v opt : UInt8) :
    WireStep now i st.net st.render (st.slots i).auState (respond st i v opt).net
      (respond st i v opt).render ((respond st i v opt).slots i).auState []
      ((st.slots i).respond v opt).1.isSome := by
  have hauth := respond_auth (st.slots i) v opt
  simp only [TelSlot.auth, Prod.mk.injEq] at hauth
  rw [respond_eq, Server.answer, Server.setSlot_slots_self, hauth.1]
  cases ha : ((st.slots i).respond v opt).1 with
  | none => exact .quiet
  | some a =>
      have hnet : (put3 st i IAC a opt).net = sayNet st.net i [IAC, a, opt] := auSay_net i _ st
      have hrender : (put3 st i IAC a opt).render = st.render := auSay_render i _ st
      simp only [Server.setSlot, hnet, hrender, Option.isSome_some]
      exact .answered a opt (respond_verb ha)

/-- What `telnet_in` does. -/
theorem telnetIn_wire (now : BitVec 32) (st : Server n) (i : Fin n) (b : UInt8) :
    WireStep now i st.net st.render (st.slots i).auState (telnetIn now st i b).net
      (telnetIn now st i b).render ((telnetIn now st i b).slots i).auState (inEvents st i b)
      (answers st i b) := by
  have hquiet : ∀ s : TelSlot, s.auState = (st.slots i).auState →
      WireStep now i st.net st.render (st.slots i).auState (st.setSlot i s).net
        (st.setSlot i s).render ((st.setSlot i s).slots i).auState [] false := by
    intro s hs
    rw [Server.setSlot_slots_self, hs]
    exact .quiet
  have hiac : ∀ v, WireStep now i st.net st.render (st.slots i).auState (st.setIac i v).net
      (st.setIac i v).render ((st.setIac i v).slots i).auState [] false := fun v => hquiet _ rfl
  cases hs : (st.slots i).iac with
  | data =>
      have hev : inEvents st i b = if (st.slots i).auState = .pw ∧ b = 0x0D ∧
          cstr (st.slots i).auBuf = cstr st.password then
            [.reset, .ready i (st.net.conns i).gen] else [] := by
        simp [inEvents, admits, telResizes, hs, and_assoc]
      have hans : answers st i b = false := by simp [answers, hs]
      rw [hev, hans, telnetIn, hs]
      dsimp only
      split
      next hb =>
        subst hb
        rw [if_neg fun h => absurd h.2.1 (by decide)]
        exact hiac _
      next hb => exact feedData_wire now st i b
  | iac =>
      have hev : inEvents st i b = [] := by simp [inEvents, admits, telResizes, hs]
      have hans : answers st i b = false := by simp [answers, hs]
      rw [hev, hans, telnetIn, hs]
      dsimp only
      split
      · have hfeed := feedData_wire now st i IAC
        rw [if_neg fun h => absurd h.2.1 (by decide)] at hfeed
        exact hfeed.setIac _
      · repeat' split
        · exact hquiet _ rfl
        · exact hquiet _ rfl
        · exact hiac _
  | verb =>
      have hev : inEvents st i b = [] := by simp [inEvents, admits, telResizes, hs]
      have hans : answers st i b = ((st.slots i).respond (st.slots i).verb b).1.isSome := by
        simp [answers, hs]
      rw [hev, hans, telnetIn, hs]
      exact (respond_wire now st i (st.slots i).verb b).setIac _
  | sb =>
      have hev : inEvents st i b = [] := by simp [inEvents, admits, telResizes, hs]
      have hans : answers st i b = false := by simp [answers, hs]
      rw [hev, hans, telnetIn, hs]
      dsimp only
      split
      · exact hiac _
      · exact sbPush_wire now st i b
  | sbIac =>
      have hans : answers st i b = false := by simp [answers, hs]
      rw [hans, telnetIn, hs]
      dsimp only
      split
      next hb =>
        have hev : inEvents st i b = if (st.slots i).newSize then [.reset] else [] := by
          simp [inEvents, admits, telResizes, hs, hb]
        rw [hev]
        exact (sbDone_wire now st i).setIac _
      next hb =>
        have hev : inEvents st i b = [] := by simp [inEvents, admits, telResizes, hs, hb]
        rw [hev]
        split
        · exact (sbPush_wire now st i IAC).setIac _
        · exact hiac _

end Dossh
