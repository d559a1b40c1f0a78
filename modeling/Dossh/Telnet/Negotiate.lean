import Dossh.Telnet.Gate

/-!
# Option negotiation

`respond` remembers the options the server has asserted itself, and nothing else.  Every refusal
is answered by a refusal, so a client that repeats one is answered again and two servers of this
kind refuse each other for ever.  After `telnet_hello` all the bits `respond` looks at are set.
From then on its answers depend on the command alone.
-/

namespace Dossh

variable {n : Nat}

/-- A negotiation command: the verb and the option. -/
abbrev Negotiation := UInt8 × UInt8

/-! ## The responder -/

/-- `respond` on the arrays of one slot: the verb it answers with, if it answers, and the arrays
afterwards. -/
def TelSlot.respond (s : TelSlot) (v opt : UInt8) : Option UInt8 × TelSlot :=
  let bit := if opt < 8 then (1 : UInt8) <<< opt else 0
  if v = DO then
    if ours opt then
      if s.willed &&& bit = 0 then (some WILL, { s with willed := s.willed ||| bit }) else (none, s)
    else (some WONT, s)
  else if v = WILL then
    if opt = OPT_SGA ∨ opt = OPT_BINARY then
      if s.doed &&& bit = 0 then (some DO, { s with doed := s.doed ||| bit }) else (none, s)
    else if opt = OPT_NAWS then (none, s)
    else (some DONT, s)
  else if v = WONT then (some DONT, s)
  else if v = DONT then (some WONT, s)
  else (none, s)

/-- The slot has been greeted: the bits of all options the server asserts are set. -/
def TelSlot.Greeted (s : TelSlot) : Prop := s.willed = 0x0B ∧ s.doed = 0x09

/-- What a greeted slot answers. -/
def reply (c : Negotiation) : Option Negotiation :=
  if c.1 = DO then if ours c.2 then none else some (WONT, c.2)
  else if c.1 = WILL then
    if c.2 = OPT_SGA ∨ c.2 = OPT_BINARY ∨ c.2 = OPT_NAWS then none else some (DONT, c.2)
  else if c.1 = WONT then some (DONT, c.2)
  else if c.1 = DONT then some (WONT, c.2)
  else none

theorem Server.setSlot_self (st : Server n) (i : Fin n) : st.setSlot i (st.slots i) = st := by
  simp [Server.setSlot]

theorem auSay_slots (st : Server n) (i : Fin n) (s : List UInt8) :
    (auSay st i s).slots = st.slots := by
  unfold auSay
  induction s generalizing st with
  | nil => rfl
  | cons b s ih => rw [List.foldl_cons, ih]; rfl

/-- Send the answer of slot `i` about an option, if there is one, and store its arrays. -/
def Server.answer (st : Server n) (i : Fin n) (opt : UInt8) (r : Option UInt8 × TelSlot) :
    Server n :=
  (match r.1 with
    | some a => put3 st i IAC a opt
    | none => st).setSlot i r.2

@[simp] theorem Server.setSlot_slots_self (st : Server n) (i : Fin n) (s : TelSlot) :
    (st.setSlot i s).slots i = s := by
  simp [Server.setSlot]

@[simp] theorem Server.answer_slots_self (st : Server n) (i : Fin n) (opt : UInt8)
    (r : Option UInt8 × TelSlot) : (st.answer i opt r).slots i = r.2 :=
  Server.setSlot_slots_self _ i r.2

/-- `respond` sends the answer of the slot and stores its arrays. -/
theorem respond_eq (st : Server n) (i : Fin n) (v opt : UInt8) :
    respond st i v opt = st.answer i opt ((st.slots i).respond v opt) := by
  have hput : ∀ a b c, (put3 st i a b c).setSlot i (st.slots i) = put3 st i a b c := by
    intro a b c
    have hslots : st.slots i = (put3 st i a b c).slots i := by rw [put3, auSay_slots]
    rw [hslots, Server.setSlot_self]
  unfold respond TelSlot.respond Server.answer
  dsimp only
  repeat' split
  all_goals simp_all [Server.setSlot_self]

/-- An answer is about the option of the command. -/
theorem reply_verb (v opt : UInt8) :
    ((reply (v, opt)).map Prod.fst).map (fun v => (v, opt)) = reply (v, opt) := by
  unfold reply
  dsimp only
  repeat' split
  all_goals rfl

/-- The bits of a greeted slot cover the options that `respond` looks up. -/
theorem greeted_bits {opt : UInt8} (h : ours opt = true) :
    (0x0B : UInt8) &&& (if opt < 8 then (1 : UInt8) <<< opt else 0) ≠ 0 ∧
      (opt = OPT_SGA ∨ opt = OPT_BINARY →
        (0x09 : UInt8) &&& (if opt < 8 then (1 : UInt8) <<< opt else 0) ≠ 0) := by
  simp only [ours, Bool.or_eq_true, decide_eq_true_eq] at h
  rcases h with (rfl | rfl) | rfl <;> decide

theorem TelSlot.Greeted.respond {s : TelSlot} (h : s.Greeted) (v opt : UInt8) :
    s.respond v opt = ((reply (v, opt)).map Prod.fst, s) := by
  unfold TelSlot.respond reply
  rw [h.1, h.2]
  dsimp only
  split
  · split
    next hours =>
      rw [if_neg (greeted_bits hours).1]
      rfl
    next => rfl
  · split
    · split
      next hopt =>
        have hours : ours opt = true := by
          rcases hopt with rfl | rfl <;> decide
        rw [if_neg ((greeted_bits hours).2 hopt), if_pos (hopt.imp_right .inl)]
        rfl
      next hopt =>
        split
        next hnaws => rw [if_pos (.inr (.inr hnaws))]; rfl
        next hnaws =>
          rw [if_neg]
          · rfl
          · rintro (h | h | h)
            · exact hopt (.inl h)
            · exact hopt (.inr h)
            · exact hnaws h
    · split
      · rfl
      · split <;> rfl

/-! ## Byte streams -/

/-- `iac[i]` and `verb[i]` after a byte. -/
def iacNext (state : IacState) (verb b : UInt8) : IacState × UInt8 :=
  match state with
  | .data => (if b = IAC then .iac else .data, verb)
  | .iac =>
      if b = IAC then (.data, verb)
      else if b = SB then (.sb, verb)
      else if WILL ≤ b ∧ b ≤ DONT then (.verb, b)
      else (.data, verb)
  | .verb => (.data, verb)
  | .sb => (if b = IAC then .sbIac else .sb, verb)
  | .sbIac => (if b = SE then .data else .sb, verb)

/-- The negotiation commands in a stream. -/
def commandsIn : IacState → UInt8 → List UInt8 → List Negotiation
  | _, _, [] => []
  | state, verb, b :: bs =>
      (if state = .verb then [(verb, b)] else []) ++
        commandsIn (iacNext state verb b).1 (iacNext state verb b).2 bs

/-- The answers that `respond` sends to slot `i` while `telnet_in` is fed a stream, each byte with
the value of the tick counter. -/
def answersIn (i : Fin n) : List (BitVec 32 × UInt8) → Server n → List Negotiation
  | [], _ => []
  | (now, b) :: bs, st =>
      (if (st.slots i).iac = .verb then
        (((st.slots i).respond (st.slots i).verb b).1.map fun v => (v, b)).toList
      else []) ++ answersIn i bs (telnetIn now st i b)

/-- The part of a slot that negotiation reads. -/
abbrev TelSlot.neg (s : TelSlot) : IacState × UInt8 × UInt8 × UInt8 :=
  (s.iac, s.verb, s.willed, s.doed)

theorem feedData_neg (now : BitVec 32) (st : Server n) (i : Fin n) (b : UInt8) :
    ((feedData now st i b).slots i).neg = (st.slots i).neg := by
  unfold feedData auCheck
  dsimp only
  repeat' split
  all_goals simp [auSay_slots]

theorem sbDone_neg (now : BitVec 32) (st : Server n) (i : Fin n) :
    ((sbDone now st i).slots i).neg = (st.slots i).neg := by
  unfold sbDone
  dsimp only
  repeat' split
  all_goals simp

theorem sbPush_neg (st : Server n) (i : Fin n) (b : UInt8) :
    ((sbPush st i b).slots i).neg = (st.slots i).neg := by
  unfold sbPush
  dsimp only
  split <;> simp

theorem Server.setIac_neg (st : Server n) (i : Fin n) (v : IacState) :
    ((st.setIac i v).slots i).neg =
      (v, (st.slots i).verb, (st.slots i).willed, (st.slots i).doed) := by
  simp [Server.setIac]

/-- A byte moves the decoder on and leaves the bits of a greeted slot. -/
theorem telnetIn_neg (now : BitVec 32) (st : Server n) (i : Fin n) (b : UInt8)
    (h : (st.slots i).Greeted) :
    ((telnetIn now st i b).slots i).neg =
      ((iacNext (st.slots i).iac (st.slots i).verb b).1,
        (iacNext (st.slots i).iac (st.slots i).verb b).2, (st.slots i).willed,
        (st.slots i).doed) := by
  have hfeed : ∀ b, ((feedData now st i b).slots i).neg = (st.slots i).neg :=
    feedData_neg now st i
  have hdone := sbDone_neg now st i
  have hpush := sbPush_neg st i
  simp only [TelSlot.neg, Prod.mk.injEq] at hfeed hdone hpush
  unfold telnetIn
  cases hs : (st.slots i).iac with
  | data =>
      dsimp only [iacNext]
      split
      · rw [Server.setIac_neg]
      · rw [feedData_neg, TelSlot.neg, hs]
  | iac =>
      dsimp only [iacNext]
      repeat' split
      · rw [Server.setIac_neg, (hfeed _).2.1, (hfeed _).2.2.1, (hfeed _).2.2.2]
      · simp
      · simp
      · rw [Server.setIac_neg]
  | verb =>
      dsimp only [iacNext]
      rw [Server.setIac_neg, respond_eq, h.respond]
      simp
  | sb =>
      dsimp only [iacNext]
      split
      · rw [Server.setIac_neg]
      · rw [sbPush_neg, TelSlot.neg, hs]
  | sbIac =>
      dsimp only [iacNext]
      repeat' split
      · rw [Server.setIac_neg, hdone.2.1, hdone.2.2.1, hdone.2.2.2]
      · rw [Server.setIac_neg, (hpush _).2.1, (hpush _).2.2.1, (hpush _).2.2.2]
      · rw [Server.setIac_neg]

/-- A greeted slot answers the commands of the stream one by one. -/
theorem answersIn_greeted (i : Fin n) : ∀ (bs : List (BitVec 32 × UInt8)) (st : Server n),
    (st.slots i).Greeted → answersIn i bs st =
      (commandsIn (st.slots i).iac (st.slots i).verb (bs.map Prod.snd)).filterMap reply
  | [], _, _ => rfl
  | (now, b) :: bs, st, h => by
      have hneg := telnetIn_neg now st i b h
      simp only [TelSlot.neg, Prod.mk.injEq] at hneg
      obtain ⟨hiac, hverb, hwilled, hdoed⟩ := hneg
      have hgreeted : ((telnetIn now st i b).slots i).Greeted := ⟨hwilled.trans h.1, hdoed.trans h.2⟩
      rw [answersIn, answersIn_greeted i bs _ hgreeted, hiac, hverb, h.respond, reply_verb,
        List.map_cons, commandsIn, List.filterMap_append]
      congr 1
      split
      · cases hr : reply ((st.slots i).verb, b) <;> simp [hr]
      · rfl

/-! ## Once per option -/

/-- At most one `WILL` or `WONT` and at most one `DO` or `DONT` for every option. -/
def OncePerOption (answers : List Negotiation) : Prop :=
  ∀ opt, answers.countP (fun c => (c.1 = WILL || c.1 = WONT) && c.2 = opt) ≤ 1 ∧
    answers.countP (fun c => (c.1 = DO || c.1 = DONT) && c.2 = opt) ≤ 1

/-- A command that concerns our side of an option and is not met by what we offered. -/
def asksUs (c : Negotiation) : Bool := c.1 = DONT || (c.1 = DO && !ours c.2)

/-- A command about the client's side of an option that we did not ask for. -/
def tellsUs (c : Negotiation) : Bool :=
  c.1 = WONT || (c.1 = WILL && !(c.2 = OPT_SGA || c.2 = OPT_BINARY || c.2 = OPT_NAWS))

/-- The client sends at most one command of each kind for every option. -/
def AskedOnce (commands : List Negotiation) : Prop :=
  ∀ opt, commands.countP (fun c => asksUs c && c.2 = opt) ≤ 1 ∧
    commands.countP (fun c => tellsUs c && c.2 = opt) ≤ 1

theorem reply_asked (c : Negotiation) (opt : UInt8) :
    ((reply c).map fun a => (a.1 = WILL || a.1 = WONT) && a.2 = opt).getD false =
      (asksUs c && c.2 = opt) := by
  obtain ⟨v, o⟩ := c
  unfold reply asksUs
  dsimp only
  repeat' split
  all_goals simp_all [WILL, WONT, DO, DONT]

theorem reply_told (c : Negotiation) (opt : UInt8) :
    ((reply c).map fun a => (a.1 = DO || a.1 = DONT) && a.2 = opt).getD false =
      (tellsUs c && c.2 = opt) := by
  obtain ⟨v, o⟩ := c
  unfold reply tellsUs
  dsimp only
  repeat' split
  all_goals simp_all [WILL, WONT, DO, DONT]
  rename_i hsilent
  rcases hsilent with rfl | rfl | rfl <;> simp

theorem oncePerOption_iff (commands : List Negotiation) :
    OncePerOption (commands.filterMap reply) ↔ AskedOnce commands := by
  unfold OncePerOption AskedOnce
  simp only [List.countP_filterMap, reply_asked, reply_told]

/-! ## Two servers -/

/-- Two responders and the commands on their way to each. -/
structure Pair where
  a : TelSlot
  b : TelSlot
  toA : List Negotiation
  toB : List Negotiation

/-- Deliver the oldest command to one of them, the first if `atA`.  The answer goes to the
other. -/
def Pair.deliver (atA : Bool) (p : Pair) : Option Pair :=
  if atA then
    match p.toA with
    | [] => none
    | c :: rest =>
        let r := p.a.respond c.1 c.2
        some { p with a := r.2, toA := rest, toB := p.toB ++ (r.1.map fun v => (v, c.2)).toList }
  else
    match p.toB with
    | [] => none
    | c :: rest =>
        let r := p.b.respond c.1 c.2
        some { p with b := r.2, toB := rest, toA := p.toA ++ (r.1.map fun v => (v, c.2)).toList }

/-- No order of delivery goes on for ever. -/
def Pair.Ends (p : Pair) : Prop :=
  ¬ ∃ ps : Nat → Pair, ps 0 = p ∧ ∀ k, ∃ atA, (ps k).deliver atA = some (ps (k + 1))

/-- The commands on their way. -/
def Pair.flight (p : Pair) : List Negotiation := p.toA ++ p.toB

/-- The commands that will be answered. -/
def Pair.loud (p : Pair) : Nat := p.flight.countP fun c => (reply c).isSome

theorem reply_loud {c a : Negotiation} (h : reply c = some a) : (reply a).isSome = true := by
  unfold reply at h
  repeat' split at h
  all_goals
    cases h
    try simp [reply, WILL, WONT, DO, DONT]

/-- A delivery between greeted slots replaces an answered command by its answer. -/
theorem Pair.deliver_cases {p p' : Pair} (ha : p.a.Greeted) (hb : p.b.Greeted) {atA : Bool}
    (h : p.deliver atA = some p') :
    p'.a = p.a ∧ p'.b = p.b ∧ ∃ c rest, p.flight.Perm (c :: rest) ∧
      p'.flight.Perm ((reply c).toList ++ rest) := by
  unfold Pair.deliver at h
  split at h
  · split at h
    · cases h
    next c rest hto =>
      rw [ha.respond] at h
      cases h
      refine ⟨rfl, rfl, c, rest ++ p.toB, ?_, ?_⟩
      · rw [Pair.flight, hto, List.cons_append]
      · dsimp only [Pair.flight]
        rw [reply_verb, ← List.append_assoc]
        exact List.perm_append_comm
  · split at h
    · cases h
    next c rest hto =>
      rw [hb.respond] at h
      cases h
      refine ⟨rfl, rfl, c, p.toA ++ rest, ?_, ?_⟩
      · rw [Pair.flight, hto]
        exact List.perm_middle
      · dsimp only [Pair.flight]
        rw [reply_verb, List.append_assoc]
        exact List.perm_append_comm_assoc _ _ _

theorem Pair.deliver_loud {p p' : Pair} (ha : p.a.Greeted) (hb : p.b.Greeted) {atA : Bool}
    (h : p.deliver atA = some p') :
    p'.loud = p.loud ∧ (p.loud = 0 → p'.flight.length + 1 = p.flight.length) := by
  obtain ⟨-, -, c, rest, hbefore, hafter⟩ := Pair.deliver_cases ha hb h
  unfold Pair.loud
  rw [hbefore.countP_eq, hafter.countP_eq, hbefore.length_eq, hafter.length_eq, List.countP_append,
    List.countP_cons, List.length_append, List.length_cons]
  cases hr : reply c with
  | none => simp
  | some a => simp [reply_loud hr, Nat.add_comm]

/-- When nothing on the way will be answered, every delivery is one command less. -/
theorem Pair.ends_quiet {p : Pair} (ha : p.a.Greeted) (hb : p.b.Greeted) (hquiet : p.loud = 0) :
    p.Ends := by
  rintro ⟨ps, rfl, hps⟩
  have hall : ∀ k, (ps k).a.Greeted ∧ (ps k).b.Greeted ∧ (ps k).loud = 0 ∧
      (ps k).flight.length + k = (ps 0).flight.length := by
    intro k
    induction k with
    | zero => exact ⟨ha, hb, hquiet, rfl⟩
    | succ k ih =>
        obtain ⟨ha, hb, hquiet, hlen⟩ := ih
        obtain ⟨atA, hk⟩ := hps k
        obtain ⟨ha', hb', -⟩ := Pair.deliver_cases ha hb hk
        obtain ⟨hloud, hshort⟩ := Pair.deliver_loud ha hb hk
        have hless := hshort hquiet
        exact ⟨ha' ▸ ha, hb' ▸ hb, hloud.trans hquiet, by omega⟩
  have hlast := (hall ((ps 0).flight.length + 1)).2.2.2
  omega

/-- The next delivery, to the first responder if there is one for it. -/
def Pair.next (p : Pair) : Pair := ((p.deliver true).or (p.deliver false)).getD p

theorem Pair.deliver_next {p : Pair} (h : 0 < p.loud) : ∃ atA, p.deliver atA = some p.next := by
  cases hA : p.toA with
  | cons c rest =>
      refine ⟨true, ?_⟩
      simp [Pair.next, Pair.deliver, hA]
  | nil =>
      cases hB : p.toB with
      | cons c rest =>
          refine ⟨false, ?_⟩
          simp [Pair.next, Pair.deliver, hA, hB]
      | nil => simp [Pair.loud, Pair.flight, hA, hB] at h

/-- While a command is on its way that will be answered, the exchange goes on. -/
theorem Pair.not_ends_loud {p : Pair} (ha : p.a.Greeted) (hb : p.b.Greeted) (h : 0 < p.loud) :
    ¬ p.Ends := by
  refine not_not.mpr ⟨fun k => Pair.next^[k] p, rfl, fun k => ?_⟩
  have hall : (Pair.next^[k] p).a.Greeted ∧ (Pair.next^[k] p).b.Greeted ∧
      0 < (Pair.next^[k] p).loud := by
    induction k with
    | zero => exact ⟨ha, hb, h⟩
    | succ k ih =>
        obtain ⟨ha, hb, h⟩ := ih
        obtain ⟨atA, hk⟩ := Pair.deliver_next h
        obtain ⟨ha', hb', -⟩ := Pair.deliver_cases ha hb hk
        rw [Function.iterate_succ_apply']
        exact ⟨ha' ▸ ha, hb' ▸ hb, (Pair.deliver_loud ha hb hk).1 ▸ h⟩
  dsimp only
  rw [Function.iterate_succ_apply']
  exact Pair.deliver_next hall.2.2

theorem Pair.ends_iff {p : Pair} (ha : p.a.Greeted) (hb : p.b.Greeted) :
    p.Ends ↔ ∀ c ∈ p.flight, reply c = none := by
  have hloud : p.loud = 0 ↔ ∀ c ∈ p.flight, reply c = none := by
    rw [Pair.loud, List.countP_eq_zero]
    simp
  rw [← hloud]
  constructor
  · intro hends
    rcases Nat.eq_zero_or_pos p.loud with h | h
    · exact h
    · exact absurd hends (Pair.not_ends_loud ha hb h)
  · exact Pair.ends_quiet ha hb

/-! ## After the hello -/

/-- The commands of `telnet_hello`. -/
def helloCommands : List Negotiation :=
  [(WILL, OPT_ECHO), (WILL, OPT_SGA), (DO, OPT_SGA), (WILL, OPT_BINARY), (DO, OPT_BINARY),
    (DO, OPT_NAWS)]

theorem telnetHello_commands (st : Server n) (i : Fin n) :
    telnetHello st i = (helloCommands.foldl (fun st c => put3 st i IAC c.1 c.2) st).setSlot i
      { st.slots i with willed := 0x0B, doed := 0x09 } := by
  have hput : ∀ (st : Server n) (a b c : UInt8), (put3 st i a b c).slots = st.slots :=
    fun st a b c => auSay_slots st i [a, b, c]
  unfold telnetHello helloCommands
  simp only [List.foldl_cons, List.foldl_nil, hput]

/-- A slot is greeted when it begins, and its decoder is at data. -/
theorem telnetBegin_neg (now : BitVec 32) (st : Server n) (i : Fin n) :
    ((telnetBegin now st i).slots i).neg = (.data, (st.slots i).verb, 0x0B, 0x09) := by
  have hslot : ∀ st : Server n, (auSay (telnetHello st i) i (0x1B :: ascii "[8;25;80t")).slots i =
      { st.slots i with willed := 0x0B, doed := 0x09 } := by
    intro st
    rw [auSay_slots, telnetHello_commands, Server.setSlot_slots_self]
  unfold telnetBegin
  dsimp only
  split
  · rw [auSay_slots, Server.setSlot_slots_self, TelSlot.neg, hslot]
    simp [telnetReset]
  · have hset : ∀ (st : Server n) (s : TelSlot) net render,
        ({ st.setSlot i s with net := net, render := render } : Server n).slots i = s := by
      intro st s net render
      exact Server.setSlot_slots_self st i s
    rw [hset, TelSlot.neg, hslot]
    simp [telnetReset]

/-- What `respond` sends is the answer of the slot.  After the hello the server answers at most once
per option exactly when the client asks at most once, and two servers stop exactly when nothing on
the way will be answered. -/
theorem negotiation_ends_iff :
    (∀ (st : Server n) (i : Fin n) (v opt : UInt8),
      respond st i v opt = st.answer i opt ((st.slots i).respond v opt)) ∧
    (∀ (now : BitVec 32) (st : Server n) (i : Fin n) (bs : List (BitVec 32 × UInt8)),
      OncePerOption (answersIn i bs (telnetBegin now st i)) ↔
        AskedOnce (commandsIn .data (st.slots i).verb (bs.map Prod.snd))) ∧
    ∀ p : Pair, p.a.Greeted → p.b.Greeted → (p.Ends ↔ ∀ c ∈ p.flight, reply c = none) := by
  refine ⟨respond_eq, fun now st i bs => ?_, fun p => Pair.ends_iff⟩
  have hneg := telnetBegin_neg now st i
  simp only [TelSlot.neg, Prod.mk.injEq] at hneg
  obtain ⟨hiac, hverb, hwilled, hdoed⟩ := hneg
  rw [answersIn_greeted i bs _ ⟨hwilled, hdoed⟩, hiac, hverb, oncePerOption_iff]

/-- A slot behind its hello. -/
def greetedSlot : TelSlot := { TelSlot.init with willed := 0x0B, doed := 0x09 }

/-- A client that accepts what it was offered and refuses to report its window size. -/
def politeStream : List (BitVec 32 × UInt8) :=
  [IAC, DO, OPT_ECHO, IAC, DO, OPT_SGA, IAC, WILL, OPT_SGA, IAC, WONT, OPT_NAWS].map fun b => (0, b)

theorem negotiation_ends_iff_polite :
    OncePerOption (answersIn 0 politeStream (telnetBegin 0 pwServer 0)) ∧
    answersIn 0 politeStream (telnetBegin 0 pwServer 0) = [(DONT, OPT_NAWS)] ∧
    Pair.Ends ⟨greetedSlot, greetedSlot, [(DO, OPT_ECHO)], [(WILL, OPT_SGA)]⟩ := by
  obtain ⟨-, hstream, hpair⟩ := negotiation_ends_iff (n := 3)
  refine ⟨(hstream 0 pwServer 0 politeStream).mpr ?_, by decide +kernel,
    (hpair _ ⟨rfl, rfl⟩ ⟨rfl, rfl⟩).mpr (forall_mem_of_all (by decide))⟩
  have hcommands : commandsIn .data (pwServer.slots 0).verb (politeStream.map Prod.snd) =
      [(DO, OPT_ECHO), (DO, OPT_SGA), (WILL, OPT_SGA), (WONT, OPT_NAWS)] := by decide +kernel
  rw [hcommands]
  exact forall_byte (by decide +kernel)

/-- A client that says twice that the server shall not echo is answered twice.  And two servers,
each with its hello on the way, never stop. -/
theorem refusals_answered_for_ever :
    answersIn 0 ([IAC, DONT, OPT_ECHO, IAC, DONT, OPT_ECHO].map fun b => (0, b))
      (telnetBegin 0 pwServer 0) = [(WONT, OPT_ECHO), (WONT, OPT_ECHO)] ∧
    ¬ OncePerOption (answersIn 0 ([IAC, DONT, OPT_ECHO, IAC, DONT, OPT_ECHO].map fun b => (0, b))
      (telnetBegin 0 pwServer 0)) ∧
    ¬ Pair.Ends ⟨greetedSlot, greetedSlot, helloCommands, helloCommands⟩ := by
  have hanswers : answersIn 0 ([IAC, DONT, OPT_ECHO, IAC, DONT, OPT_ECHO].map fun b => (0, b))
      (telnetBegin 0 pwServer 0) = [(WONT, OPT_ECHO), (WONT, OPT_ECHO)] := by decide +kernel
  refine ⟨hanswers, fun h => ?_, Pair.not_ends_loud ⟨rfl, rfl⟩ ⟨rfl, rfl⟩ (by decide)⟩
  rw [hanswers] at h
  exact absurd (h OPT_ECHO).1 (by decide)

end Dossh
