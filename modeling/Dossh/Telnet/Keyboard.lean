import Dossh.Net.Life
import Dossh.Telnet.Negotiate
import Mathlib.Data.List.TakeWhile

/-!
# The keyboard gate of the telnet server

With a password configured, `feed_data` passes bytes to the key mapper only when `au_state` of
the slot is `AU_OK`.  That array belongs to the slot and not to the connection, and it starts as
`AU_OK`.  So the gate needs that `telnet_begin` comes between the handshake of a connection and
the first of its bytes, also when the slot was in use before and when bytes or a FIN come with
the handshake.

The history of the framing code is kept beside the run.  A session is what the history shows of
a slot since the last `telnet_begin` on it: the generation of the connection and its bytes.
-/

namespace Dossh

variable {n : Nat}

/-! ## The lines of a session -/

/-- The byte is data for a decoder in this state: no part of a command, or the second half of an
escaped `IAC`. -/
def isData : IacState → UInt8 → Bool
  | .data, b => b ≠ IAC
  | .iac, b => b = IAC
  | _, _ => false

/-- The state of the decoder after a stream. -/
def iacAfter (bs : List UInt8) : IacState := bs.foldl (fun s b => (iacNext s 0 b).1) .data

/-- A stream without its IAC sequences. -/
def stripIac : IacState → List UInt8 → List UInt8
  | _, [] => []
  | s, b :: bs => (if isData s b then [b] else []) ++ stripIac (iacNext s 0 b).1 bs

/-- A password line being typed and the lines ended before it. -/
structure Typed where
  buf : List UInt8
  lines : List (List UInt8)
deriving DecidableEq

/-- One more data byte.  A CR ends the line, LF and NUL are ignored, BS and DEL erase the last
byte kept, and at most 31 bytes are kept. -/
def Typed.add (t : Typed) (b : UInt8) : Typed :=
  if b = 0x0D then { buf := [], lines := t.lines ++ [t.buf] }
  else if b = 0x0A ∨ b = 0 then t
  else if b = 8 ∨ b = 127 then { t with buf := t.buf.dropLast }
  else if t.buf.length < 31 then { t with buf := t.buf ++ [b] }
  else t

/-- What a connection has typed in a stream. -/
def typed (bs : List UInt8) : Typed := (stripIac .data bs).foldl Typed.add ⟨[], []⟩

/-- The first three lines are there and none is the password. -/
def ThreeStrikes (pw bs : List UInt8) : Prop :=
  3 ≤ (typed bs).lines.length ∧ pw ∉ (typed bs).lines.take 3

instance (pw bs : List UInt8) : Decidable (ThreeStrikes pw bs) :=
  inferInstanceAs (Decidable (_ ∧ _))

/-- The state of the decoder does not depend on the verb it remembers. -/
theorem iacNext_fst (s : IacState) (v v' b : UInt8) : (iacNext s v b).1 = (iacNext s v' b).1 := by
  cases s with
  | iac =>
      simp only [iacNext]
      repeat' split
      all_goals rfl
  | _ => rfl

theorem iacAfter_concat (bs : List UInt8) (b : UInt8) :
    iacAfter (bs ++ [b]) = (iacNext (iacAfter bs) 0 b).1 := by
  simp [iacAfter]

theorem stripIac_append (b : UInt8) : ∀ (s : IacState) (bs : List UInt8),
    stripIac s (bs ++ [b]) = stripIac s bs ++
      if isData (bs.foldl (fun s b => (iacNext s 0 b).1) s) b then [b] else []
  | _, [] => List.append_nil _
  | s, b' :: bs => by
      rw [List.cons_append, stripIac, stripIac, stripIac_append b _ bs, List.append_assoc]
      rfl

theorem typed_concat (bs : List UInt8) (b : UInt8) :
    typed (bs ++ [b]) = if isData (iacAfter bs) b then (typed bs).add b else typed bs := by
  have hstrip := stripIac_append b .data bs
  rw [← iacAfter] at hstrip
  rw [typed, hstrip, List.foldl_append]
  split
  · rfl
  · rfl

/-- Lines are only added. -/
theorem Typed.add_lines (t : Typed) (b : UInt8) : t.lines <+: (t.add b).lines := by
  unfold Typed.add
  repeat' split
  · exact List.prefix_append _ _
  all_goals exact List.prefix_rfl

theorem typed_lines_concat (bs : List UInt8) (b : UInt8) :
    (typed bs).lines <+: (typed (bs ++ [b])).lines := by
  rw [typed_concat]
  split
  · exact Typed.add_lines _ b
  · exact List.prefix_rfl

theorem typed_lines_append (bs : List UInt8) : ∀ more : List UInt8,
    (typed bs).lines <+: (typed (bs ++ more)).lines := by
  intro more
  induction more using List.reverseRecOn with
  | nil => rw [List.append_nil]
  | append_singleton more b ih =>
      rw [← List.append_assoc]
      exact ih.trans (typed_lines_concat _ b)

/-- More bytes do not change the first three lines. -/
theorem ThreeStrikes.mono {pw bs bs' : List UInt8} (h : ThreeStrikes pw bs) (hp : bs <+: bs') :
    ThreeStrikes pw bs' := by
  obtain ⟨more, rfl⟩ := hp
  have hlines := typed_lines_append bs more
  refine ⟨h.1.trans hlines.length_le, ?_⟩
  obtain ⟨rest, hrest⟩ := hlines
  rw [← hrest, List.take_append_of_le_length h.1]
  exact h.2

/-- No NUL is kept. -/
theorem Typed.add_no_nul {t : Typed} (h : 0 ∉ t.buf) (b : UInt8) : 0 ∉ (t.add b).buf := by
  unfold Typed.add
  split
  · simp
  split
  · exact h
  next hb =>
    split
    · exact fun hmem => h (List.mem_of_mem_dropLast hmem)
    · split
      · simp only [List.mem_append, List.mem_singleton, not_or]
        exact ⟨h, fun h0 => hb (.inr h0.symm)⟩
      · exact h

theorem typed_no_nul (bs : List UInt8) : 0 ∉ (typed bs).buf := by
  induction bs using List.reverseRecOn with
  | nil => simp [typed, stripIac]
  | append_singleton bs b ih =>
      rw [typed_concat]
      split
      · exact Typed.add_no_nul ih b
      · exact ih

/-! ## The history -/

/-- What the framing code does for a slot and the connection on it: `telnet_begin`, or
`telnet_in` with a byte, which is passed to the key mapper or not. -/
inductive TelEvent (n : Nat) where
  | begun (i : Fin n) (gen : Nat)
  | byte (i : Fin n) (gen : Nat) (b : UInt8) (toKey : Bool)
deriving DecidableEq

/-- The session on a slot: the generation of the last `telnet_begin` and the bytes since. -/
def session (i : Fin n) : List (TelEvent n) → Option (Nat × List UInt8)
  | [] => none
  | .begun j g :: past => if j = i then some (g, []) else session i past
  | .byte j _ b _ :: past =>
      if j = i then (session i past).map fun s => (s.1, s.2 ++ [b]) else session i past

/-- The bytes passed to the key mapper, in their order. -/
def telKeysOf : List (TelEvent n) → List UInt8
  | [] => []
  | .begun _ _ :: past => telKeysOf past
  | .byte _ _ b toKey :: past => telKeysOf past ++ if toKey then [b] else []

/-- `telnet_in` passes the byte to the key mapper. -/
def toKey (st : Server n) (i : Fin n) (b : UInt8) : Bool :=
  (st.slots i).auState = .ok && isData (st.slots i).iac b && !(st.eofExit && b = 0x04)

/-- The history of `begin_loop`, newest event first. -/
def beginHist (now : BitVec 32) : Nat → Server n → List (TelEvent n) → List (TelEvent n)
  | 0, _, h => h
  | fuel + 1, st, h =>
      match netTakeNewSlot st.net with
      | (none, _) => h
      | (some i, net) =>
          beginHist now fuel (telnetBegin now { st with net := net } i)
            (.begun i (st.net.conns i).gen :: h)

/-- The history of `rxLoop`. -/
def rxHist (now : BitVec 32) (i : Fin n) : Nat → Server n → List (TelEvent n) → List (TelEvent n)
  | 0, _, h => h
  | fuel + 1, st, h =>
      match netRxGetc st.net i with
      | (none, _) => h
      | (some b, net) =>
          rxHist now i fuel (telnetIn now { st with net := net } i b)
            (.byte i (st.net.conns i).gen b (toKey st i b) :: h)

/-- The history of the loop over the slots. -/
def slotsHist (now : BitVec 32) :
    List (Fin n) → Server n → List (TelEvent n) → List (TelEvent n)
  | [], _, h => h
  | i :: is, st, h => slotsHist now is (rxLoop now i RCV_SZ st) (rxHist now i RCV_SZ st h)

/-- The history of `net_tick`. -/
def tickHist (pkt : Option (List UInt8)) (s : Screen) (st : Server n)
    (h : List (TelEvent n)) : List (TelEvent n) :=
  let polled := { st with net := netPoll s.ticks pkt st.net }
  slotsHist s.ticks (List.finRange n) (beginLoop s.ticks (n + 1) polled)
    (beginHist s.ticks (n + 1) polled h)

/-- The history of a run. -/
def telnetHist : List (Option (List UInt8) × Screen) → Server n → List (TelEvent n) →
    List (TelEvent n)
  | [], _, h => h
  | (pkt, s) :: ticks, st, h => telnetHist ticks (netTick pkt s st) (tickHist pkt s st h)

/-! ## The key mapper -/

theorem auSay_key (st : Server n) (i : Fin n) (s : List UInt8) : (auSay st i s).key = st.key := by
  unfold auSay
  induction s generalizing st with
  | nil => rfl
  | cons b s ih => rw [List.foldl_cons, ih]; rfl

theorem telnetBegin_key (now : BitVec 32) (st : Server n) (i : Fin n) :
    (telnetBegin now st i).key = st.key := by
  have hhello : ∀ st : Server n, (telnetHello st i).key = st.key := by
    intro st
    simp only [telnetHello, put3, Server.setSlot, auSay_key]
  unfold telnetBegin
  dsimp only
  split
  · simp only [auSay_key, Server.setSlot, hhello, telnetReset]
  · simp only [auSay_key, Server.setSlot, hhello, telnetReset]

theorem auCheck_key (now : BitVec 32) (st : Server n) (i : Fin n) :
    (auCheck now st i).key = st.key := by
  unfold auCheck
  dsimp only
  repeat' split
  all_goals simp only [auSay_key, Server.setSlot]

theorem feedData_key (now : BitVec 32) (st : Server n) (i : Fin n) (b : UInt8) :
    (feedData now st i b).key =
      if (st.slots i).auState = .ok && !(st.eofExit && b = 0x04) then ansiKeyByte st.key b
      else st.key := by
  unfold feedData
  dsimp only
  cases hau : (st.slots i).auState with
  | ok =>
      simp only [if_true, decide_true, Bool.true_and]
      split
      next heof => simp only [heof, Bool.not_true, Bool.false_eq_true, if_false]
      next heof => simp only [heof, Bool.not_false, if_true]
  | pw =>
      simp only [reduceCtorEq, if_false, decide_false, Bool.false_and, Bool.false_eq_true]
      repeat' split
      · exact auCheck_key now st i
      all_goals rfl

theorem respond_key (st : Server n) (i : Fin n) (v opt : UInt8) :
    (respond st i v opt).key = st.key := by
  rw [respond_eq, Server.answer]
  split
  · exact auSay_key st i _
  · rfl

theorem sbPush_key (st : Server n) (i : Fin n) (b : UInt8) : (sbPush st i b).key = st.key := by
  unfold sbPush
  dsimp only
  split <;> rfl

theorem sbDone_key (now : BitVec 32) (st : Server n) (i : Fin n) :
    (sbDone now st i).key = st.key := by
  unfold sbDone
  dsimp only
  repeat' split
  all_goals rfl

theorem telnetIn_key (now : BitVec 32) (st : Server n) (i : Fin n) (b : UInt8) :
    (telnetIn now st i b).key = if toKey st i b then ansiKeyByte st.key b else st.key := by
  unfold telnetIn toKey
  cases hs : (st.slots i).iac with
  | data =>
      dsimp only
      split
      next hb => simp [Server.setIac, Server.setSlot, isData, hb]
      next hb => simp [feedData_key, isData, hb]
  | iac =>
      dsimp only
      split
      next hb => simp [Server.setIac, Server.setSlot, feedData_key, isData, hb]
      next hb =>
        repeat' split
        all_goals simp_all [Server.setIac, Server.setSlot, isData]
  | verb => simp [Server.setIac, Server.setSlot, respond_key, isData]
  | sb =>
      simp only [isData, Bool.and_false, Bool.false_and, Bool.false_eq_true, if_false]
      split
      · rfl
      · exact sbPush_key st i b
  | sbIac =>
      simp only [isData, Bool.and_false, Bool.false_and, Bool.false_eq_true, if_false]
      repeat' split
      · exact sbDone_key now st i
      · exact sbPush_key st i _
      · rfl

/-! ## What a call leaves alone -/

/-- The framing code at work on one slot. -/
structure Server.At (i : Fin n) (st st' : Server n) : Prop where
  slots : ∀ j, j ≠ i → st'.slots j = st.slots j
  password : st'.password = st.password
  conns : ∀ j, (st.net.conns j).Stays (st'.net.conns j)

namespace Server.At

variable {i : Fin n} {st st' st'' : Server n}

theorem refl (i : Fin n) (st : Server n) : Server.At i st st :=
  ⟨fun _ _ => rfl, rfl, fun _ => .refl _⟩

theorem trans (h : Server.At i st st') (h' : Server.At i st' st'') : Server.At i st st'' :=
  ⟨fun j hj => (h'.slots j hj).trans (h.slots j hj), h'.password.trans h.password,
    fun j => (h.conns j).trans (h'.conns j)⟩

theorem setSlot (i : Fin n) (st : Server n) (s : TelSlot) : Server.At i st (st.setSlot i s) := by
  refine ⟨fun j hj => ?_, rfl, fun _ => .refl _⟩
  simp [Server.setSlot, hj]

theorem auSay (i : Fin n) : ∀ (s : List UInt8) (st : Server n),
    Server.At i st (Dossh.auSay st i s)
  | [], st => refl i st
  | b :: s, st =>
      trans (⟨fun _ _ => rfl, rfl, netTxPutcSlot_stays st.net i b⟩ : Server.At i st (st.putc i b))
        (auSay i s (st.putc i b))

theorem drop (i : Fin n) (st : Server n) :
    Server.At i st { st with net := netSlotDrop st.net i } :=
  ⟨fun _ _ => rfl, rfl, netSlotDrop_stays st.net i⟩

/-- Admit the slot to the broadcast, with new arrays of it. -/
theorem admits (i : Fin n) (st : Server n) (s : TelSlot) (render : Render)
    (auths : List (Fin n × Nat)) :
    Server.At i st { st.setSlot i s with
      net := netSlotReady st.net i true, render := render, auths := auths } := by
  refine ⟨fun j hj => ?_, rfl, netSlotReady_stays st.net i true⟩
  simp [Server.setSlot, hj]

theorem put3 (i : Fin n) (st : Server n) (a b c : UInt8) :
    Server.At i st (Dossh.put3 st i a b c) := auSay i _ st

theorem hello (i : Fin n) (st : Server n) : Server.At i st (telnetHello st i) :=
  trans (put3 i _ _ _ _) (trans (put3 i _ _ _ _) (trans (put3 i _ _ _ _) (trans (put3 i _ _ _ _)
    (trans (put3 i _ _ _ _) (trans (put3 i _ _ _ _) (setSlot i _ _))))))

theorem begin (now : BitVec 32) (i : Fin n) (st : Server n) :
    Server.At i st (telnetBegin now st i) := by
  have hsetup : Server.At i st
      (Dossh.auSay (telnetHello (telnetReset st i) i) i (0x1B :: ascii "[8;25;80t")) :=
    trans (setSlot i st _) (trans (hello i _) (auSay i _ _))
  unfold telnetBegin
  dsimp only
  split
  · exact hsetup.trans (trans (setSlot i _ _) (auSay i _ _))
  · exact hsetup.trans (admits i _ _ _ _)

theorem auCheck (now : BitVec 32) (i : Fin n) (st : Server n) :
    Server.At i st (Dossh.auCheck now st i) := by
  unfold Dossh.auCheck
  dsimp only
  split
  · exact admits i st _ _ _
  · split
    · exact trans (setSlot i st _) (trans (auSay i _ _) (drop i _))
    · exact trans (setSlot i st _) (auSay i _ _)

theorem feedData (now : BitVec 32) (i : Fin n) (st : Server n) (b : UInt8) :
    Server.At i st (Dossh.feedData now st i b) := by
  unfold Dossh.feedData
  dsimp only
  repeat' split
  · exact drop i st
  · exact ⟨fun _ _ => rfl, rfl, fun _ => .refl _⟩
  · exact auCheck now i st
  · exact refl i st
  · exact setSlot i st _
  · exact setSlot i st _
  · exact refl i st

theorem respond (i : Fin n) (st : Server n) (v opt : UInt8) :
    Server.At i st (Dossh.respond st i v opt) := by
  rw [respond_eq, Server.answer]
  refine trans ?_ (setSlot i _ _)
  split
  · exact auSay i _ st
  · exact refl i st

theorem sbPush (i : Fin n) (st : Server n) (b : UInt8) :
    Server.At i st (Dossh.sbPush st i b) := by
  unfold Dossh.sbPush
  dsimp only
  split
  · exact setSlot i st _
  · exact refl i st

theorem sbDone (now : BitVec 32) (i : Fin n) (st : Server n) :
    Server.At i st (Dossh.sbDone now st i) := by
  unfold Dossh.sbDone
  dsimp only
  repeat' split
  · exact trans (setSlot i st _) ⟨fun _ _ => rfl, rfl, fun _ => .refl _⟩
  · exact setSlot i st _
  · exact refl i st
  · exact refl i st

theorem telnetIn (now : BitVec 32) (i : Fin n) (st : Server n) (b : UInt8) :
    Server.At i st (Dossh.telnetIn now st i b) := by
  have hiac : ∀ (st : Server n) v, Server.At i st (st.setIac i v) := fun st v => setSlot i st _
  unfold Dossh.telnetIn
  cases (st.slots i).iac with
  | data =>
      dsimp only
      split
      · exact hiac st _
      · exact feedData now i st b
  | iac =>
      dsimp only
      repeat' split
      · exact (feedData now i st IAC).trans (hiac _ _)
      · exact setSlot i st _
      · exact setSlot i st _
      · exact hiac st _
  | verb => exact (respond i st _ b).trans (hiac _ _)
  | sb =>
      dsimp only
      split
      · exact hiac st _
      · exact sbPush i st b
  | sbIac =>
      dsimp only
      repeat' split
      · exact (sbDone now i st).trans (hiac _ _)
      · exact (sbPush i st IAC).trans (hiac _ _)
      · exact hiac st _

end Server.At

/-! ## A slot and its session -/

/-- The part of a slot that the password gate reads. -/
abbrev TelSlot.auth (s : TelSlot) : AuState × List UInt8 × Nat := (s.auState, s.auBuf, s.auTries)

/-- The gate of the slot after what was typed.  It is open only if one of the first three lines
was the password. -/
structure TelSlot.Typing (pw : List UInt8) (s : TelSlot) (t : Typed) : Prop where
  admits : s.auState = .ok → pw ∈ t.lines.take 3
  waits : s.auState = .pw →
    s.auBuf = t.buf ∧ s.auTries = t.lines.length ∧ t.lines.length < 3 ∧ pw ∉ t.lines

theorem TelSlot.Typing.of_shut {pw : List UInt8} {s : TelSlot} {t : Typed}
    (hs : s.auState = .pw) (hbuf : s.auBuf = t.buf) (htries : s.auTries = t.lines.length)
    (hlen : t.lines.length < 3) (hnot : pw ∉ t.lines) : s.Typing pw t := by
  refine ⟨fun hok => ?_, fun _ => ⟨hbuf, htries, hlen, hnot⟩⟩
  rw [hs] at hok
  cases hok

theorem TelSlot.Typing.congr {pw : List UInt8} {s s' : TelSlot} {t : Typed} (h : s.Typing pw t)
    (hauth : s'.auth = s.auth) : s'.Typing pw t := by
  simp only [TelSlot.auth, Prod.mk.injEq] at hauth
  obtain ⟨hstate, hbuf, htries⟩ := hauth
  refine ⟨fun hok => h.admits (hstate ▸ hok), fun hpw => ?_⟩
  rw [hbuf, htries]
  exact h.waits (hstate ▸ hpw)

/-- The slot follows the bytes of its session. -/
structure TelSlot.Follows (pw : List UInt8) (s : TelSlot) (bs : List UInt8) : Prop where
  greeted : s.Greeted
  iac : s.iac = iacAfter bs
  typing : s.Typing pw (typed bs)

theorem TelSlot.Typing.not_struck {pw bs : List UInt8} {s : TelSlot}
    (h : s.Typing pw (typed bs)) : ¬ ThreeStrikes pw bs := by
  rintro ⟨hlen, hnot⟩
  cases hs : s.auState with
  | ok => exact hnot (h.admits hs)
  | pw =>
      have hshort := (h.waits hs).2.2.1
      omega

theorem cstr_eq_self {l : List UInt8} (h : 0 ∉ l) : cstr l = l := by
  rw [cstr, List.takeWhile_eq_self_iff]
  intro b hb
  simp only [ne_eq, decide_eq_true_eq]
  rintro rfl
  exact h hb

theorem telnetSetPassword_no_nul (pw : List UInt8) : 0 ∉ telnetSetPassword pw := by
  intro h
  have hmem := List.mem_takeWhile_imp (List.mem_of_mem_take h)
  simp at hmem

section Typing

variable {pw : List UInt8} {st : Server n} {i : Fin n} {t : Typed}

/-- The slot follows what was typed, or it was given back. -/
def Server.TypingAt (pw : List UInt8) (st : Server n) (i : Fin n) (t : Typed) : Prop :=
  (st.slots i).Typing pw t ∨ (st.net.conns i).tstate = .listen

theorem Server.TypingAt.setSlot (h : st.TypingAt pw i t) {s : TelSlot}
    (hs : s.auth = (st.slots i).auth) : (st.setSlot i s).TypingAt pw i t := by
  refine h.imp_left fun h => ?_
  rw [Server.setSlot_slots_self]
  exact h.congr hs

/-- A line is ended. -/
theorem auCheck_typing (now : BitVec 32) (hpw : st.password = pw) (hnul : 0 ∉ pw)
    (hnul' : 0 ∉ t.buf) (h : (st.slots i).Typing pw t) (hs : (st.slots i).auState = .pw) :
    (auCheck now st i).TypingAt pw i { buf := [], lines := t.lines ++ [t.buf] } := by
  obtain ⟨hbuf, htries, hlen, hnot⟩ := h.waits hs
  unfold auCheck
  dsimp only
  rw [hbuf, hpw, cstr_eq_self hnul, cstr_eq_self hnul', htries]
  split
  next heq =>
    refine .inl ⟨fun _ => ?_, fun hpw' => ?_⟩
    · rw [List.take_of_length_le (by simp only [List.length_append, List.length_singleton]; omega),
        heq]
      exact List.mem_append_right _ (List.mem_singleton_self _)
    · simp [Server.setSlot] at hpw'
  next hne =>
    have hmod : (t.lines.length + 1) % 256 = t.lines.length + 1 := by omega
    rw [hmod]
    split
    next hthree =>
      refine .inr ?_
      dsimp only
      unfold netSlotDrop
      dsimp only
      split
      all_goals
        rw [Net.set_conns_self]
        rfl
    next hthree =>
      refine .inl ?_
      rw [auSay_slots, Server.setSlot_slots_self]
      refine .of_shut hs rfl ?_ ?_ ?_
      · simp
      · simp only [List.length_append, List.length_singleton]
        omega
      · simp only [List.mem_append, List.mem_singleton, not_or]
        exact ⟨hnot, fun heq => hne heq.symm⟩

theorem feedData_typing (now : BitVec 32) (b : UInt8) (hpw : st.password = pw) (hnul : 0 ∉ pw)
    (hnul' : 0 ∉ t.buf) (h : (st.slots i).Typing pw t) :
    (feedData now st i b).TypingAt pw i (t.add b) := by
  unfold feedData
  dsimp only
  cases hs : (st.slots i).auState with
  | ok =>
      simp only [if_true]
      have hopen : (st.slots i).Typing pw (t.add b) := by
        refine ⟨fun _ => ?_, fun hpw' => ?_⟩
        · exact List.IsPrefix.mem (h.admits hs) ((t.add_lines b).take 3)
        · rw [hs] at hpw'
          cases hpw'
      split
      · exact .inl hopen
      · exact .inl hopen
  | pw =>
      simp only [reduceCtorEq, if_false]
      obtain ⟨hbuf, htries, hlen, hnot⟩ := h.waits hs
      unfold Typed.add
      split
      · exact auCheck_typing now hpw hnul hnul' h hs
      split
      · exact .inl h
      split
      · refine .inl ?_
        rw [Server.setSlot_slots_self]
        exact .of_shut rfl (congrArg List.dropLast hbuf) htries hlen hnot
      · rw [hbuf]
        split
        · refine .inl ?_
          rw [Server.setSlot_slots_self]
          exact .of_shut rfl rfl htries hlen hnot
        · exact .inl h

theorem respond_auth (s : TelSlot) (v opt : UInt8) : (s.respond v opt).2.auth = s.auth := by
  unfold TelSlot.respond
  dsimp only
  repeat' split
  all_goals rfl

theorem telnetIn_typing (now : BitVec 32) (b : UInt8) (hpw : st.password = pw) (hnul : 0 ∉ pw)
    (hnul' : 0 ∉ t.buf) (h : (st.slots i).Typing pw t) :
    (telnetIn now st i b).TypingAt pw i
      (if isData (st.slots i).iac b then t.add b else t) := by
  have hiac : ∀ {st : Server n} {t : Typed} (v : IacState), st.TypingAt pw i t →
      (st.setIac i v).TypingAt pw i t := fun v h => h.setSlot rfl
  have hst : st.TypingAt pw i t := .inl h
  unfold telnetIn
  cases (st.slots i).iac with
  | data =>
      by_cases hb : b = IAC
      · simpa [isData, hb] using hiac _ hst
      · simpa [isData, hb] using feedData_typing now b hpw hnul hnul' h
  | iac =>
      by_cases hb : b = IAC
      · subst hb
        simpa [isData] using hiac _ (feedData_typing now IAC hpw hnul hnul' h)
      · simp only [isData, hb, decide_false, Bool.false_eq_true, if_false]
        repeat' split
        all_goals exact hst.setSlot rfl
  | verb =>
      simp only [isData, Bool.false_eq_true, if_false]
      refine hiac _ ?_
      rw [respond_eq]
      refine .inl ?_
      rw [Server.answer_slots_self]
      exact h.congr (respond_auth _ _ _)
  | sb =>
      simp only [isData, Bool.false_eq_true, if_false]
      split
      · exact hiac _ hst
      · unfold sbPush
        dsimp only
        split
        · exact hst.setSlot rfl
        · exact hst
  | sbIac =>
      simp only [isData, Bool.false_eq_true, if_false]
      repeat' split
      · refine hiac _ ?_
        unfold sbDone
        dsimp only
        repeat' split
        all_goals first
          | exact hst
          | exact hst.setSlot rfl
      · refine hiac _ ?_
        unfold sbPush
        dsimp only
        split
        · exact hst.setSlot rfl
        · exact hst
      · exact hiac _ hst

end Typing

theorem telnetIn_follows (now : BitVec 32) {pw bs : List UInt8} {st : Server n} {i : Fin n}
    (b : UInt8) (hpw : st.password = pw) (hnul : 0 ∉ pw) (h : (st.slots i).Follows pw bs) :
    ((telnetIn now st i b).slots i).Follows pw (bs ++ [b]) ∨
      ((telnetIn now st i b).net.conns i).tstate = .listen := by
  refine (telnetIn_typing now b hpw hnul (typed_no_nul bs) h.typing).imp_left fun htyping => ?_
  have hneg := telnetIn_neg now st i b h.greeted
  simp only [TelSlot.neg, Prod.mk.injEq] at hneg
  obtain ⟨hiac, -, hwilled, hdoed⟩ := hneg
  refine ⟨⟨hwilled.trans h.greeted.1, hdoed.trans h.greeted.2⟩, ?_, ?_⟩
  · rw [hiac, iacAfter_concat, h.iac, iacNext_fst]
  · rw [typed_concat, ← h.iac]
    exact htyping

/-- With a password a session begins before a shut gate. -/
theorem telnetBegin_follows (now : BitVec 32) (st : Server n) (i : Fin n)
    (hpw : st.password.headD 0 ≠ 0) :
    ((telnetBegin now st i).slots i).Follows st.password [] := by
  have hneg := telnetBegin_neg now st i
  simp only [TelSlot.neg, Prod.mk.injEq] at hneg
  refine ⟨⟨hneg.2.2.1, hneg.2.2.2⟩, hneg.1, ?_⟩
  have hauth : ((telnetBegin now st i).slots i).auth = (.pw, [], 0) := by
    have hsetup : Server.At i st
        (auSay (telnetHello (telnetReset st i) i) i (0x1B :: ascii "[8;25;80t")) :=
      (Server.At.setSlot i st _).trans ((Server.At.hello i _).trans (Server.At.auSay i _ _))
    unfold telnetBegin
    dsimp only
    rw [hsetup.password, if_pos hpw, auSay_slots, Server.setSlot_slots_self]
  simp only [TelSlot.auth, Prod.mk.injEq] at hauth
  exact .of_shut hauth.1 hauth.2.1 hauth.2.2 (Nat.zero_lt_succ 2) List.not_mem_nil

/-! ## One slot over a run -/

/-- A connection, the arrays of its slot and the session there.  Until `telnet_begin` was called
for the connection its session has no bytes, and afterwards the slot follows the session. -/
structure SlotGate (pw : List UInt8) (c : Conn) (s : TelSlot)
    (sess : Option (Nat × List UInt8)) : Prop where
  old : ∀ g bs, sess = some (g, bs) → g ≤ c.gen
  fresh : c.tstate = .synrcvd ∨ c.justEstab = true → ∀ bs, sess = some (c.gen, bs) → bs = []
  live : c.tstate = .estab → c.justEstab = false →
    ∃ bs, sess = some (c.gen, bs) ∧ s.Follows pw bs
  struck : ∀ bs, sess = some (c.gen, bs) → ThreeStrikes pw bs → c.tstate = .listen
  ring : c.rTail ≠ c.rHead → c.tstate = .estab

theorem not_threeStrikes_nil (pw : List UInt8) : ¬ ThreeStrikes pw [] :=
  fun h => absurd h.1 (by decide)

namespace SlotGate

variable {pw : List UInt8} {c c' : Conn} {s : TelSlot} {sess : Option (Nat × List UInt8)}

theorem stays (h : SlotGate pw c s sess) (hc : c.Stays c') : SlotGate pw c' s sess := by
  obtain ⟨hgen, hjust, ⟨hst, ht, hh⟩ | ⟨hst, hring⟩⟩ := hc
  · refine ⟨?_, ?_, ?_, ?_, ?_⟩
    · rw [hgen]
      exact h.old
    · rw [hst, hjust, hgen]
      exact h.fresh
    · rw [hst, hjust, hgen]
      exact h.live
    · rw [hst, hgen]
      exact h.struck
    · rw [hst, ht, hh]
      exact h.ring
  · refine ⟨?_, ?_, ?_, fun _ _ _ => hst, fun hne => absurd hring hne⟩
    · rw [hgen]
      exact h.old
    · rw [hst, hjust, hgen]
      rintro (hsyn | hnew)
      · cases hsyn
      · exact h.fresh (.inr hnew)
    · rw [hst]
      intro hestab
      cases hestab

theorem lifeStep (h : SlotGate pw c s sess) (hc : c.LifeStep c') : SlotGate pw c' s sess := by
  cases hc with
  | stays hc => exact h.stays hc
  | stored hst hst' hgen hjust =>
      refine ⟨?_, ?_, ?_, ?_, fun _ => hst'⟩
      · rw [hgen]
        exact h.old
      · rw [hst', hjust, hgen]
        rintro (hsyn | hnew)
        · cases hsyn
        · exact h.fresh (.inr hnew)
      · rw [hjust, hgen]
        exact fun _ => h.live hst
      · rw [hgen]
        intro bs hbs hthree
        have hlisten := h.struck bs hbs hthree
        rw [hst] at hlisten
        cases hlisten
  | syn hst hgen hring =>
      -- the session of an earlier connection has a smaller generation
      have hnone : ∀ bs, sess ≠ some (c.gen + 1, bs) := by
        intro bs hbs
        have hle := h.old _ _ hbs
        omega
      refine ⟨fun g bs hbs => ?_, fun _ bs hbs => ?_, fun hestab => ?_, fun bs hbs => ?_,
        fun hne => absurd hring hne⟩
      · have hle := h.old g bs hbs
        omega
      · rw [hgen] at hbs
        exact absurd hbs (hnone bs)
      · rw [hst] at hestab
        cases hestab
      · rw [hgen] at hbs
        exact absurd hbs (hnone bs)
  | estab hst hst' hgen hjust =>
      have hfresh := h.fresh (.inl hst)
      refine ⟨?_, ?_, fun _ hold => ?_, fun bs hbs hthree => ?_, fun _ => hst'⟩
      · rw [hgen]
        exact h.old
      · rw [hgen]
        exact fun _ => hfresh
      · rw [hjust] at hold
        cases hold
      · rw [hgen] at hbs
        rw [hfresh bs hbs] at hthree
        exact absurd hthree (not_threeStrikes_nil pw)

theorem lives (h : SlotGate pw c s sess) (hc : c.Lives c') : SlotGate pw c' s sess := by
  induction hc with
  | refl => exact h
  | tail _ hstep ih => exact ih.lifeStep hstep

/-- `telnet_begin`, after the bit for the new connection was cleared. -/
theorem begun {s' : TelSlot} (h : SlotGate pw c s sess)
    (hc : ({ c with justEstab := false } : Conn).Stays c') (hs : s'.Follows pw []) :
    SlotGate pw c' s' (some (c.gen, [])) := by
  have hold : SlotGate pw { c with justEstab := false } s' (some (c.gen, [])) := by
    refine ⟨?_, ?_, fun _ _ => ⟨[], rfl, hs⟩, ?_, h.ring⟩
    · rintro g bs ⟨⟩
      exact le_refl _
    · rintro - bs ⟨⟩
      rfl
    · rintro bs ⟨⟩ hthree
      exact absurd hthree (not_threeStrikes_nil pw)
  exact hold.stays hc

/-- A byte of an established connection was processed. -/
theorem byte {c₁ : Conn} {s' : TelSlot} {bs : List UInt8} (hc : c₁.Stays c')
    (hst : c₁.tstate = .estab) (hnew : c₁.justEstab = false)
    (hs : s'.Follows pw bs ∨ c'.tstate = .listen) : SlotGate pw c' s' (some (c₁.gen, bs)) := by
  refine ⟨?_, ?_, fun hestab _ => ⟨bs, ?_, ?_⟩, ?_, fun hne => ?_⟩
  · rintro g bs' ⟨⟩
    exact le_of_eq hc.gen.symm
  · rintro (hsyn | hjust)
    · rcases hc.state with ⟨hsame, -⟩ | ⟨hlisten, -⟩
      · rw [hsame, hst] at hsyn
        cases hsyn
      · rw [hlisten] at hsyn
        cases hsyn
    · rw [hc.just, hnew] at hjust
      cases hjust
  · rw [hc.gen]
  · rcases hs with hs | hlisten
    · exact hs
    · rw [hlisten] at hestab
      cases hestab
  · intro bs' hbs hthree
    rcases hs with hs | hlisten
    · simp only [Option.some.injEq, Prod.mk.injEq] at hbs
      rw [← hbs.2] at hthree
      exact absurd hthree hs.typing.not_struck
    · exact hlisten
  · rcases hc.state with ⟨hsame, -⟩ | ⟨-, hring⟩
    · exact hsame.trans hst
    · exact absurd hring hne

end SlotGate

/-! ## The server over a run -/

/-- A connection begins after the sessions before it on the slot.  A byte is processed in the
session of its connection, before the third wrong line, and it goes to the key mapper only behind
the password. -/
def TelKeyOk (pw : List UInt8) : TelEvent n → List (TelEvent n) → Prop
  | .begun i g, past => ∀ g' bs, session i past = some (g', bs) → g' < g ∨ g' = g ∧ bs = []
  | .byte i g _ toKey, past => ∃ bs, session i past = some (g, bs) ∧ ¬ ThreeStrikes pw bs ∧
      (toKey = true → pw ∈ (typed bs).lines)

/-- The keyboard gate of the whole server. -/
structure KeyGate (pw : List UInt8) (st : Server n) (h : List (TelEvent n)) : Prop where
  password : st.password = pw
  slots : ∀ i, SlotGate pw (st.net.conns i) (st.slots i) (session i h)
  events : History.Always (TelKeyOk pw) h
  keys : st.key = (telKeysOf h).foldl ansiKeyByte AnsiKey.init

/-- The loop over new connections leaves none. -/
theorem beginLoop_noneNew (now : BitVec 32) : ∀ (fuel : Nat) (st : Server n),
    st.net.newSlots.card < fuel → (beginLoop now fuel st).net.NoneNew
  | 0, _, hlt => absurd hlt (Nat.not_lt_zero _)
  | fuel + 1, st, hlt => by
      rw [beginLoop]
      split
      next net heq =>
        obtain ⟨rfl, hnone⟩ := netTakeNewSlot_none heq
        exact hnone
      next i net heq =>
        obtain ⟨hnew, rfl⟩ := netTakeNewSlot_some heq
        refine beginLoop_noneNew now fuel _ ?_
        have hless := Net.newSlots_taken hnew
        rw [Net.newSlots_stays (Server.At.begin now i _).conns]
        exact hless.trans_le (Nat.le_of_lt_succ hlt)

namespace KeyGate

variable {pw : List UInt8} {st st' : Server n} {h : List (TelEvent n)}

/-- The stack went on by itself. -/
theorem lives (hg : KeyGate pw st h) (hconns : ∀ j, (st.net.conns j).Lives (st'.net.conns j))
    (hslots : st'.slots = st.slots) (hpw : st'.password = st.password) (hkey : st'.key = st.key) :
    KeyGate pw st' h := by
  refine ⟨hpw.trans hg.password, fun i => ?_, hg.events, hkey.trans hg.keys⟩
  rw [hslots]
  exact (hg.slots i).lives (hconns i)

theorem session_other {i j : Fin n} (hij : j ≠ i) {e : TelEvent n} (past : List (TelEvent n))
    (he : (∃ g, e = .begun i g) ∨ ∃ g b k, e = .byte i g b k) :
    session j (e :: past) = session j past := by
  rcases he with ⟨g, rfl⟩ | ⟨g, b, k, rfl⟩
  · simp only [session, if_neg (Ne.symm hij)]
  · simp only [session, if_neg (Ne.symm hij)]

theorem beginOne (hg : KeyGate pw st h) (hpw : pw.headD 0 ≠ 0) (now : BitVec 32) {i : Fin n}
    (hnew : (st.net.conns i).justEstab = true) :
    KeyGate pw (telnetBegin now { st with
        net := st.net.set i { st.net.conns i with justEstab := false } } i)
      (.begun i (st.net.conns i).gen :: h) := by
  generalize htaken : ({ st with
    net := st.net.set i { st.net.conns i with justEstab := false } } : Server n) = taken
  have hpassword : taken.password = pw := by
    rw [← htaken]
    exact hg.password
  have hslots : taken.slots = st.slots := by rw [← htaken]
  have hconn : ∀ j, taken.net.conns j =
      if j = i then { st.net.conns i with justEstab := false } else st.net.conns j := by
    intro j
    rw [← htaken]
    exact Net.set_conns _ _ _ _
  have hat := Server.At.begin now i taken
  refine ⟨hat.password.trans hpassword, fun j => ?_, ⟨fun g bs hs => ?_, hg.events⟩, ?_⟩
  · by_cases hji : j = i
    · subst hji
      have hstays := hat.conns j
      rw [hconn, if_pos rfl] at hstays
      have hfollows := telnetBegin_follows now taken j (by rw [hpassword]; exact hpw)
      rw [hpassword] at hfollows
      simp only [session, if_pos]
      exact (hg.slots j).begun hstays hfollows
    · have hstays := hat.conns j
      rw [hconn, if_neg hji] at hstays
      rw [hat.slots j hji, hslots, session_other hji _ (.inl ⟨_, rfl⟩)]
      exact (hg.slots j).stays hstays
  · rcases Nat.lt_or_eq_of_le ((hg.slots i).old g bs hs) with hlt | rfl
    · exact .inl hlt
    · exact .inr ⟨rfl, (hg.slots i).fresh (.inr hnew) bs hs⟩
  · rw [telnetBegin_key, ← htaken]
    exact hg.keys

theorem beginLoop (hpw : pw.headD 0 ≠ 0) (now : BitVec 32) : ∀ (fuel : Nat) {st : Server n}
    {h : List (TelEvent n)}, KeyGate pw st h →
      KeyGate pw (Dossh.beginLoop now fuel st) (beginHist now fuel st h)
  | 0, _, _, hg => hg
  | fuel + 1, st, h, hg => by
      rw [Dossh.beginLoop, beginHist]
      rcases heq : netTakeNewSlot st.net with ⟨_ | i, net⟩
      · obtain ⟨rfl, -⟩ := netTakeNewSlot_none heq
        exact hg
      · obtain ⟨hnew, rfl⟩ := netTakeNewSlot_some heq
        exact beginLoop hpw now fuel (hg.beginOne hpw now hnew)

theorem byteOne (hg : KeyGate pw st h) (hnul : 0 ∉ pw) (hnone : st.net.NoneNew)
    (now : BitVec 32) {i : Fin n} {b : UInt8} {net : Net n}
    (hget : netRxGetc st.net i = (some b, net)) :
    KeyGate pw (Dossh.telnetIn now { st with net := net } i b)
        (.byte i (st.net.conns i).gen b (toKey st i b) :: h) ∧
      (Dossh.telnetIn now { st with net := net } i b).net.NoneNew := by
  unfold netRxGetc at hget
  dsimp only at hget
  split at hget
  · cases hget
  next hne =>
    cases hget
    have hst := (hg.slots i).ring hne
    obtain ⟨bs, hsess, hfollows⟩ := (hg.slots i).live hst (hnone i)
    set b := (st.net.conns i).rbuf (st.net.conns i).rTail
    generalize hgot : ({ st with net := st.net.set i { st.net.conns i with
      rTail := ((st.net.conns i).rTail + 1) % RCV_SZ } } : Server n) = got
    have hslots : got.slots = st.slots := by rw [← hgot]
    have hpassword : got.password = pw := by
      rw [← hgot]
      exact hg.password
    have hkey : got.key = st.key := by rw [← hgot]
    have htoKey : toKey got i b = toKey st i b := by
      rw [← hgot]
      rfl
    have hconn : ∀ j, got.net.conns j = if j = i then { st.net.conns i with
        rTail := ((st.net.conns i).rTail + 1) % RCV_SZ } else st.net.conns j := by
      intro j
      rw [← hgot]
      exact Net.set_conns _ _ _ _
    have hat := Server.At.telnetIn now i got b
    refine ⟨⟨hat.password.trans hpassword, fun j => ?_, ⟨⟨bs, hsess, ?_, ?_⟩, hg.events⟩, ?_⟩, ?_⟩
    · have hstays := hat.conns j
      by_cases hji : j = i
      · subst hji
        rw [hconn, if_pos rfl] at hstays
        simp only [session, if_pos, hsess, Option.map_some]
        rw [← hslots] at hfollows
        have hgate := SlotGate.byte hstays hst (hnone j)
          (telnetIn_follows now b hpassword hnul hfollows)
        exact hgate
      · rw [hconn, if_neg hji] at hstays
        rw [hat.slots j hji, hslots, session_other hji _ (.inr ⟨_, _, _, rfl⟩)]
        exact (hg.slots j).stays hstays
    · exact hfollows.typing.not_struck
    · intro hpassed
      simp only [toKey, Bool.and_eq_true, decide_eq_true_eq] at hpassed
      exact List.mem_of_mem_take (hfollows.typing.admits hpassed.1.1)
    · rw [telnetIn_key, htoKey, hkey, telKeysOf, List.foldl_append, ← hg.keys]
      split
      · rfl
      · rfl
    · intro j
      rw [(hat.conns j).just, hconn]
      split
      · exact hnone i
      · exact hnone j

theorem rxLoop (hnul : 0 ∉ pw) (now : BitVec 32) (i : Fin n) : ∀ (fuel : Nat) {st : Server n}
    {h : List (TelEvent n)}, KeyGate pw st h → st.net.NoneNew →
      KeyGate pw (Dossh.rxLoop now i fuel st) (rxHist now i fuel st h) ∧
        (Dossh.rxLoop now i fuel st).net.NoneNew
  | 0, _, _, hg, hnone => ⟨hg, hnone⟩
  | fuel + 1, st, h, hg, hnone => by
      rw [Dossh.rxLoop, rxHist]
      rcases heq : netRxGetc st.net i with ⟨_ | b, net⟩
      · have hnet : net = st.net := by
          unfold netRxGetc at heq
          dsimp only at heq
          split at heq
          · cases heq
            rfl
          · cases heq
        subst hnet
        exact ⟨hg, hnone⟩
      · obtain ⟨hg', hnone'⟩ := hg.byteOne hnul hnone now heq
        exact rxLoop hnul now i fuel hg' hnone'

theorem rxSlots (hnul : 0 ∉ pw) (now : BitVec 32) : ∀ (is : List (Fin n)) {st : Server n}
    {h : List (TelEvent n)}, KeyGate pw st h → st.net.NoneNew →
      KeyGate pw (is.foldl (fun st i => Dossh.rxLoop now i RCV_SZ st) st) (slotsHist now is st h)
  | [], _, _, hg, _ => hg
  | i :: is, _, _, hg, hnone => by
      obtain ⟨hg', hnone'⟩ := hg.rxLoop hnul now i RCV_SZ hnone
      exact rxSlots hnul now is hg' hnone'

/-- Sending keeps the gate. -/
theorem stays (hg : KeyGate pw st h) {net : Net n} {render : Render}
    (hconns : ∀ j, (st.net.conns j).Stays (net.conns j)) :
    KeyGate pw { st with net := net, render := render } h :=
  hg.lives (fun j => (hconns j).lives) rfl rfl rfl

theorem txPumpLoop (s : Screen) : ∀ (budget : Nat) {st : Server n}, KeyGate pw st h →
    KeyGate pw (Dossh.txPumpLoop s budget st) h
  | 0, _, hg => hg
  | budget + 1, st, hg => by
      rw [Dossh.txPumpLoop]
      split
      · exact hg.stays fun _ => .refl _
      next b render _ =>
        have hput := netTxPutc_stays st.net b
        split
        next net heq =>
          rw [heq] at hput
          exact txPumpLoop s budget (hg.stays hput)
        next net heq =>
          rw [heq] at hput
          exact hg.stays hput

theorem netTick (hg : KeyGate pw st h) (hpw : pw.headD 0 ≠ 0) (hnul : 0 ∉ pw)
    (pkt : Option (List UInt8)) (s : Screen) :
    KeyGate pw (Dossh.netTick pkt s st) (tickHist pkt s st h) := by
  have hpoll : KeyGate pw { st with net := netPoll s.ticks pkt st.net } h :=
    hg.lives (netPoll_lives s.ticks pkt st.net) rfl rfl rfl
  have hbegin := beginLoop hpw s.ticks (n + 1) hpoll
  have hnone : (Dossh.beginLoop s.ticks (n + 1)
      { st with net := netPoll s.ticks pkt st.net }).net.NoneNew := by
    refine beginLoop_noneNew s.ticks (n + 1) _ (Nat.lt_succ_of_le ?_)
    exact (Finset.card_le_univ _).trans_eq (Fintype.card_fin n)
  have hrx := hbegin.rxSlots hnul s.ticks (List.finRange n) hnone
  unfold Dossh.netTick tickHist
  dsimp only
  split
  · have hpump := hrx.txPumpLoop s TX_BUDGET
    exact hpump.stays fun j => (netTxFlush_conns s.ticks _ j).stays
  · exact hrx

theorem run (hpw : pw.headD 0 ≠ 0) (hnul : 0 ∉ pw) :
    ∀ (ticks : List (Option (List UInt8) × Screen)) {st : Server n} {h : List (TelEvent n)},
      KeyGate pw st h → KeyGate pw (telnetRun ticks st) (telnetHist ticks st h)
  | [], _, _, hg => hg
  | (pkt, s) :: ticks, _, _, hg => run hpw hnul ticks (hg.netTick hpw hnul pkt s)

end KeyGate

theorem KeyGate.init (gMac gIp : List UInt8) (myPort : Nat) (pw : List UInt8) (eofExit : Bool)
    (render : Render) :
    KeyGate (telnetSetPassword pw)
      (serverInit gMac gIp myPort pw eofExit render : Server n) [] := by
  refine ⟨rfl, fun i => ?_, trivial, rfl⟩
  refine ⟨?_, ?_, ?_, ?_, fun hne => absurd rfl hne⟩
  · rintro g bs ⟨⟩
  · rintro - bs ⟨⟩
  · rintro ⟨⟩
  · rintro bs ⟨⟩

/-- After a session the slot has a later one, or the same with more bytes. -/
theorem session_grows {pw : List UInt8} {i : Fin n} {g : Nat} {bs : List UInt8}
    {past : List (TelEvent n)} (hs : session i past = some (g, bs)) (hne : bs ≠ []) :
    ∀ {later : List (TelEvent n)}, History.Always (TelKeyOk pw) (later ++ past) →
      ∃ g' bs', session i (later ++ past) = some (g', bs') ∧ (g < g' ∨ g = g' ∧ bs <+: bs')
  | [], _ => ⟨g, bs, hs, .inr ⟨rfl, List.prefix_rfl⟩⟩
  | e :: later, ha => by
      obtain ⟨g', bs', hs', hgrows⟩ := session_grows hs hne ha.2
      cases e with
      | begun j gj =>
          by_cases hj : j = i
          · subst hj
            refine ⟨gj, [], by simp [session], ?_⟩
            have hbegun := ha.1 g' bs' hs'
            rcases hgrows with hlt | ⟨rfl, hp⟩
            · exact .inl (by omega)
            · rcases hbegun with hlt | ⟨-, rfl⟩
              · exact .inl hlt
              · exact absurd (List.prefix_nil.mp hp) hne
          · refine ⟨g', bs', ?_, hgrows⟩
            rw [List.cons_append, session, if_neg hj]
            exact hs'
      | byte j gj b k =>
          by_cases hj : j = i
          · refine ⟨g', bs' ++ [b], ?_, ?_⟩
            · rw [List.cons_append, session, if_pos hj, hs']
              rfl
            · exact hgrows.imp_right fun ⟨hg, hp⟩ => ⟨hg, hp.trans (List.prefix_append _ _)⟩
          · refine ⟨g', bs', ?_, hgrows⟩
            rw [List.cons_append, session, if_neg hj]
            exact hs'

/-- The keyboard gate at the end of a run.  The key mapper was given the bytes the history says,
each behind a line of its own session that is the password.  After the third wrong line of a
session no byte of its connection is processed, and the connection is gone. -/
structure KeyboardGated (pw : List UInt8) (st : Server n) (h : List (TelEvent n)) : Prop where
  keys : st.key = (telKeysOf h).foldl ansiKeyByte AnsiKey.init
  gate : ∀ i g b past, (TelEvent.byte i g b true :: past) <:+ h →
    ∃ bs, session i past = some (g, bs) ∧ pw ∈ (typed bs).lines
  struck : ∀ i g bs later past, h = later ++ past → session i past = some (g, bs) →
    ThreeStrikes pw bs →
      (∀ b k, TelEvent.byte i g b k ∉ later) ∧
      ((st.net.conns i).gen = g → (st.net.conns i).tstate = .listen)

theorem ThreeStrikes.ne_nil {pw bs : List UInt8} (h : ThreeStrikes pw bs) : bs ≠ [] := by
  rintro rfl
  exact not_threeStrikes_nil pw h

theorem KeyGate.gated {pw : List UInt8} {st : Server n} {h : List (TelEvent n)}
    (hg : KeyGate pw st h) : KeyboardGated pw st h := by
  refine ⟨hg.keys, fun i g b past hs => ?_, fun i g bs later past heq hsess hthree => ⟨?_, ?_⟩⟩
  · obtain ⟨bs, hsess, -, hline⟩ := hg.events.at hs
    exact ⟨bs, hsess, hline rfl⟩
  · intro b k hmem
    obtain ⟨newer, older, rfl⟩ := List.append_of_mem hmem
    have hsuffix : TelEvent.byte i g b k :: (older ++ past) <:+ h :=
      ⟨newer, by rw [heq, List.append_assoc, List.cons_append]⟩
    obtain ⟨bs', hsess', hnot, -⟩ := hg.events.at hsuffix
    have hpast : History.Always (TelKeyOk pw) (older ++ past) :=
      History.always_of fun e p hp => hg.events.at (hp.trans ((List.suffix_cons _ _).trans hsuffix))
    obtain ⟨g₁, bs₁, hs₁, hgrows⟩ := session_grows hsess hthree.ne_nil hpast
    rw [hsess'] at hs₁
    cases hs₁
    rcases hgrows with hlt | ⟨-, hp⟩
    · exact absurd hlt (Nat.lt_irrefl g)
    · exact hnot (hthree.mono hp)
  · intro hgen
    have hall := hg.events
    have hslot := hg.slots i
    rw [heq] at hall hslot
    obtain ⟨g₁, bs₁, hs₁, hgrows⟩ := session_grows hsess hthree.ne_nil hall
    rcases hgrows with hlt | ⟨rfl, hp⟩
    · have hle := hslot.old _ _ hs₁
      omega
    · rw [← hgen] at hs₁
      exact hslot.struck bs₁ hs₁ (hthree.mono hp)

/-- The keyboard gate, in every run of ticks with a password configured. -/
theorem telnet_keyboard_gated (gMac gIp : List UInt8) (myPort : Nat) (pw : List UInt8)
    (hpw : pw.headD 0 ≠ 0) (eofExit : Bool) (render : Render)
    (ticks : List (Option (List UInt8) × Screen)) :
    KeyboardGated (telnetSetPassword pw)
      (telnetRun ticks (serverInit gMac gIp myPort pw eofExit render : Server n))
      (telnetHist ticks (serverInit gMac gIp myPort pw eofExit render : Server n) []) :=
  (KeyGate.run (telnetSetPassword_head hpw) (telnetSetPassword_no_nul pw) ticks
    (.init gMac gIp myPort pw eofExit render)).gated

/-- A client logs in and presses a key. -/
def keyTicks : List (Option (List UInt8) × Screen) :=
  loginTicks ++ [segTick 3 7 1000 9 0x13701 0x18 (ascii "x")]

/-- A client types three wrong lines, then the password and a key. -/
def struckTicks : List (Option (List UInt8) × Screen) :=
  [segTick 0 7 1000 5 0 0x02 [], segTick 1 7 1000 6 0x13701 0x10 [],
    segTick 2 7 1000 6 0x13701 0x18 (ascii "a\rb\rc\rpw\rx")]

/-- The key reaches the key mapper.  Of the other client nothing behind the third line is
processed. -/
theorem telnet_keyboard_gated_login :
    KeyboardGated (telnetSetPassword (ascii "pw")) (telnetRun keyTicks pwServer)
      (telnetHist keyTicks pwServer []) ∧
    telKeysOf (telnetHist keyTicks pwServer []) = ascii "x" ∧
    KeyboardGated (telnetSetPassword (ascii "pw")) (telnetRun struckTicks pwServer)
      (telnetHist struckTicks pwServer []) ∧
    session 0 (telnetHist struckTicks pwServer []) = some (1, ascii "a\rb\rc\r") ∧
    ThreeStrikes (ascii "pw") (ascii "a\rb\rc\r") := by
  have hpw : (ascii "pw").headD 0 ≠ 0 := by decide
  exact ⟨telnet_keyboard_gated _ _ _ (ascii "pw") hpw _ _ _, by decide +kernel,
    telnet_keyboard_gated _ _ _ (ascii "pw") hpw _ _ _, by decide +kernel, by decide +kernel⟩

end Dossh
