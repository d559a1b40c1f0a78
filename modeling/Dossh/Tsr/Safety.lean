import Dossh.Lib.Chain
import Dossh.Tsr.Model
import Mathlib.Data.List.Pairwise
import Mathlib.Data.List.Perm.Subperm

/-!
# What an interrupt relies on

An interrupt that comes between two calls goes through a chain of handlers.  At every such moment
each vector leads through handlers of programs in memory down to BIOS and DOS, and the packet
drivers have receivers of a DOSSHD in memory only (`Pc.Safe`).  Here it is said of each call when it
keeps this, and what `find_resident` finds then.
-/

namespace Dossh

open Chain (Leads)

/-! ## Memory blocks -/

/-- The parts of DOSSHD lie in its memory. -/
structure Image.Fits (image : Image) (paras : Nat) : Prop where
  isr : ∀ v, (image.isr v).seg < paras
  state : image.state.seg < paras
  receiver : image.receiver.seg < paras

/-- What DOS and the program in it see to. -/
structure Block.Proper (pc : Pc) (b : Block) : Prop where
  pos : 0 < b.psp ∧ 0 < b.paras
  end_lt : b.psp + b.paras < 2 ^ 16
  outside : ∀ v, ¬ b.Covers (pc.base v).seg
  image : ∀ st, b.program = .dosshd st → pc.image.Fits b.paras
  tsr : ∀ t, b.program = .tsr t → ∀ v p, t.hooks v = some p → b.Covers p.seg
  reply : ∀ t, b.program = .tsr t → ∀ r, t.reply = some r → r = ⟨0, 0⟩ ∨ b.Covers r.seg

/-- Two blocks do not overlap. -/
def Block.Apart (b b' : Block) : Prop := b.psp + b.paras ≤ b'.psp ∨ b'.psp + b'.paras ≤ b.psp

instance : Std.Symm Block.Apart := ⟨fun _ _ h => h.symm⟩

/-- The blocks in use. -/
structure Pc.Laid (pc : Pc) (blocks : List Block) : Prop where
  apart : blocks.Pairwise Block.Apart
  proper : ∀ b ∈ blocks, b.Proper pc

section

variable {pc : Pc} {blocks blocks' : List Block} {b b' : Block} {v : Vec} {p q : FarPtr}

theorem Block.handler_resident {st : ResidentState} (h : b.program = .dosshd (some st)) (v : Vec) :
    b.handler pc v = some ((pc.image.isr v).loaded b.psp) := by
  rw [Block.handler, h, Program.handler]

theorem Block.handler_tsr {t : Tsr} (h : b.program = .tsr t) (v : Vec) :
    b.handler pc v = t.hooks v := by
  rw [Block.handler, h, Program.handler]

theorem Block.Proper.covers (h : b.Proper pc) (hp : b.handler pc v = some p) : b.Covers p.seg := by
  have himage := h.image
  have htsr := h.tsr
  unfold Block.handler Program.handler at hp
  cases hprog : b.program with
  | dosshd st =>
      rw [hprog] at hp
      cases st with
      | none => cases hp
      | some st =>
          simp only [Option.some.injEq] at hp
          subst hp
          have hfit := (himage _ hprog).isr v
          simp only [FarPtr.loaded, Block.Covers]
          omega
  | tsr t =>
      rw [hprog] at hp
      exact htsr t hprog v p hp
  | data =>
      rw [hprog] at hp
      cases hp

namespace Pc.Laid

/-- A segment lies in one block. -/
theorem eq_of_covers (h : pc.Laid blocks) (hb : b ∈ blocks) (hb' : b' ∈ blocks) {seg : Nat}
    (hseg : b.Covers seg) (hseg' : b'.Covers seg) : b = b' := by
  by_contra hne
  have hapart := h.apart.forall hb hb' hne
  simp only [Block.Apart, Block.Covers] at hapart hseg hseg'
  omega

theorem eq_of_psp (h : pc.Laid blocks) (hb : b ∈ blocks) (hb' : b' ∈ blocks)
    (hpsp : b.psp = b'.psp) : b = b' := by
  have hpos := (h.proper b hb).pos
  have hpos' := (h.proper b' hb').pos
  have hcovers : b.Covers b.psp := ⟨Nat.le_refl _, by omega⟩
  have hcovers' : b'.Covers b.psp := ⟨by omega, by omega⟩
  exact h.eq_of_covers hb hb' hcovers hcovers'

/-- A handler is of one block. -/
theorem eq_of_handler (h : pc.Laid blocks) (hb : b ∈ blocks) (hb' : b' ∈ blocks)
    (hp : b.handler pc v = some p) (hp' : b'.handler pc v = some p) : b = b' :=
  h.eq_of_covers hb hb' ((h.proper b hb).covers hp) ((h.proper b' hb').covers hp')

end Pc.Laid

variable {m m' : Machine}

theorem Machine.handlerAt_iff (h : pc.Laid m.blocks) :
    m.handlerAt pc v p = some b ↔ b ∈ m.blocks ∧ b.handler pc v = some p := by
  unfold Machine.handlerAt
  constructor
  · intro hfind
    have hat := List.find?_some hfind
    exact ⟨List.mem_of_find?_eq_some hfind, of_decide_eq_true hat⟩
  · rintro ⟨hmem, hat⟩
    cases hfind : m.blocks.find? fun b => decide (b.handler pc v = some p) with
    | none =>
        have hnone := List.find?_eq_none.mp hfind b hmem
        simp [hat] at hnone
    | some b' =>
        have hmem' := List.mem_of_find?_eq_some hfind
        have hat' := List.find?_some hfind
        simp only [decide_eq_true_eq] at hat'
        rw [h.eq_of_handler hmem' hmem hat' hat]

theorem Machine.link_iff (h : pc.Laid m.blocks) : m.link pc v p = some q ↔
    ∃ b ∈ m.blocks, b.handler pc v = some p ∧ b.program.old v = some q := by
  simp only [Machine.link, Option.bind_eq_some_iff, Machine.handlerAt_iff h, and_assoc]

/-- A chain is that of the handlers which stay. -/
theorem leads_of_blocks (hlaid : pc.Laid m.blocks) (hlaid' : pc.Laid m'.blocks) {ps : List FarPtr}
    (h : Leads (m.link pc v) (pc.base v) p ps)
    (hstay : ∀ q ∈ ps, ∀ b ∈ m.blocks, b.handler pc v = some q →
      ∃ b' ∈ m'.blocks, b'.handler pc v = some q ∧ b'.program.old v = b.program.old v) :
    Leads (m'.link pc v) (pc.base v) p ps := by
  refine h.congr fun q hq => ?_
  obtain ⟨r, hr⟩ := h.linked q hq
  obtain ⟨b, hb, hat, hold⟩ := (Machine.link_iff hlaid).mp hr
  obtain ⟨b', hb', hat', hold'⟩ := hstay q hq b hb hat
  rw [hr]
  exact (Machine.link_iff hlaid').mpr ⟨b', hb', hat', hold'.trans hold⟩

end

/-! ## What holds after every call -/

/-- `P` holds before the calls and after each of them. -/
def Machine.Through (P : Machine → Prop) (m : Machine) (calls : List DosCall) : Prop :=
  ∀ done, done <+: calls → P (m.run done)

theorem Machine.through_nil {P : Machine → Prop} {m : Machine} : m.Through P [] ↔ P m := by
  simp [Machine.Through, Machine.run]

theorem Machine.through_cons {P : Machine → Prop} {m : Machine} {c : DosCall}
    {calls : List DosCall} : m.Through P (c :: calls) ↔ P m ∧ (m.call c).Through P calls := by
  constructor
  · intro h
    refine ⟨h [] List.nil_prefix, fun done hdone => ?_⟩
    exact h (c :: done) (List.cons_prefix_cons.mpr ⟨rfl, hdone⟩)
  · rintro ⟨hfirst, hrest⟩ done hdone
    cases done with
    | nil => exact hfirst
    | cons d done =>
        obtain ⟨rfl, hmore⟩ := List.cons_prefix_cons.mp hdone
        exact hrest done hmore

theorem Machine.Through.last {P : Machine → Prop} {m : Machine} {calls : List DosCall}
    (h : m.Through P calls) : P (m.run calls) := h calls List.prefix_rfl

/-- DOSSHD is resident in this block. -/
def Block.Resident (b : Block) : Prop := ∃ st, b.program = .dosshd (some st)

/-- What an interrupt relies on, with the handlers of each chain. -/
structure Pc.Safe (pc : Pc) (m : Machine) (ch : Vec → List FarPtr) : Prop where
  laid : pc.Laid m.blocks
  chain : ∀ v, Leads (m.link pc v) (pc.base v) (m.ivt v) (ch v)
  receivers : ∀ int hs, m.drv int = some hs → ∀ h ∈ hs, ∃ b ∈ m.blocks,
    (∃ st, b.program = .dosshd st) ∧ h.2 = pc.image.receiver.loaded b.psp
  one : ∀ b ∈ m.blocks, ∀ b' ∈ m.blocks, b.Resident → b'.Resident → b = b'

section

variable {pc : Pc} {m : Machine} {ch : Vec → List FarPtr} {b : Block} {v : Vec} {p : FarPtr}

/-- A block that DOS can give. -/
structure Pc.Room (pc : Pc) (m : Machine) (b : Block) : Prop where
  proper : b.Proper pc
  apart : ∀ b' ∈ m.blocks, b.Apart b'

theorem Pc.Laid.alloc {blocks : List Block} (h : pc.Laid blocks) (hproper : b.Proper pc)
    (hapart : ∀ b' ∈ blocks, b.Apart b') : pc.Laid (b :: blocks) :=
  ⟨List.pairwise_cons.mpr ⟨hapart, h.apart⟩, List.forall_mem_cons.mpr ⟨hproper, h.proper⟩⟩

theorem Pc.Laid.free {blocks : List Block} (h : pc.Laid blocks) (psp : Nat) :
    pc.Laid (blocks.filter fun b => b.psp ≠ psp) :=
  ⟨h.apart.filter _, fun b hb => h.proper b (List.mem_filter.mp hb).1⟩

namespace Pc.Safe

/-- The handlers of a chain are in memory. -/
theorem handler (h : pc.Safe m ch) (hp : p ∈ ch v) :
    ∃ b ∈ m.blocks, b.handler pc v = some p ∧ b.Covers p.seg := by
  obtain ⟨r, hr⟩ := (h.chain v).linked p hp
  obtain ⟨b, hb, hat, -⟩ := (Machine.link_iff h.laid).mp hr
  exact ⟨b, hb, hat, (h.laid.proper b hb).covers hat⟩

theorem alloc (h : pc.Safe m ch) (hroom : pc.Room m b) (hnew : ¬ b.Resident) :
    pc.Safe (m.call (.alloc b)) ch where
  laid := h.laid.alloc hroom.proper hroom.apart
  chain v := leads_of_blocks h.laid (h.laid.alloc hroom.proper hroom.apart) (h.chain v)
    fun _ _ b' hb' hat => ⟨b', List.mem_cons_of_mem _ hb', hat, rfl⟩
  receivers int hs hhs hd hhd := by
    obtain ⟨b', hb', hrcv⟩ := h.receivers int hs hhs hd hhd
    exact ⟨b', List.mem_cons_of_mem _ hb', hrcv⟩
  one b₁ hb₁ b₂ hb₂ hres₁ hres₂ := by
    rcases List.mem_cons.mp hb₁ with rfl | hb₁
    · exact absurd hres₁ hnew
    · rcases List.mem_cons.mp hb₂ with rfl | hb₂
      · exact absurd hres₂ hnew
      · exact h.one b₁ hb₁ b₂ hb₂ hres₁ hres₂

/-- A block is given back that no chain and no driver needs. -/
theorem free (h : pc.Safe m ch) {psp : Nat}
    (hchain : ∀ v, ∀ p ∈ ch v, ∀ b ∈ m.blocks, b.handler pc v = some p → b.psp ≠ psp)
    (hrcv : ∀ int hs, m.drv int = some hs → ∀ h ∈ hs, ∀ b ∈ m.blocks,
      (∃ st, b.program = .dosshd st) → h.2 = pc.image.receiver.loaded b.psp → b.psp ≠ psp) :
    pc.Safe (m.call (.freemem psp)) ch where
  laid := h.laid.free psp
  chain v := leads_of_blocks h.laid (h.laid.free psp) (h.chain v) fun p hp b' hb' hat =>
    ⟨b', List.mem_filter.mpr ⟨hb', decide_eq_true (hchain v p hp b' hb' hat)⟩, hat, rfl⟩
  receivers int hs hhs hd hhd := by
    obtain ⟨b', hb', hprog, heq⟩ := h.receivers int hs hhs hd hhd
    exact ⟨b', List.mem_filter.mpr ⟨hb', decide_eq_true (hrcv int hs hhs hd hhd b' hb' hprog heq)⟩,
      hprog, heq⟩
  one b₁ hb₁ b₂ hb₂ :=
    h.one b₁ (List.mem_filter.mp hb₁).1 b₂ (List.mem_filter.mp hb₂).1

theorem setvect (h : pc.Safe m ch) {ps : List FarPtr}
    (hleads : Leads (m.link pc v) (pc.base v) p ps) :
    pc.Safe (m.call (.setvect v p)) (Function.update ch v ps) where
  laid := h.laid
  chain v' := by
    show Leads (m.link pc v') (pc.base v') (Function.update m.ivt v p v') _
    by_cases hv : v' = v
    · subst hv
      rw [Function.update_self, Function.update_self]
      exact hleads
    · rw [Function.update_of_ne hv, Function.update_of_ne hv]
      exact h.chain v'
  receivers := h.receivers
  one := h.one

theorem drivers (h : pc.Safe m ch) {drv : Nat → Option (List (Nat × FarPtr))}
    (hdrv : ∀ int hs, drv int = some hs → ∀ h ∈ hs, ∃ b ∈ m.blocks,
      (∃ st, b.program = .dosshd st) ∧ h.2 = pc.image.receiver.loaded b.psp) :
    pc.Safe { m with drv := drv } ch where
  laid := h.laid
  chain := h.chain
  receivers := hdrv
  one := h.one

/-- A handler is not one of BIOS or DOS. -/
theorem ne_base (h : pc.Safe m ch) (hb : b ∈ m.blocks) (hat : b.handler pc v = some p) :
    p ≠ pc.base v := by
  rintro rfl
  exact (h.laid.proper b hb).outside v ((h.laid.proper b hb).covers hat)

/-- A handler goes in front of the chain that was there. -/
theorem hook (h : pc.Safe m ch) (hb : b ∈ m.blocks) (hat : b.handler pc v = some p)
    (hold : b.program.old v = some (m.ivt v)) :
    pc.Safe (m.call (.setvect v p)) (Function.update ch v (p :: ch v)) :=
  h.setvect (.pass (h.ne_base hb hat) ((Machine.link_iff h.laid).mpr ⟨b, hb, hat, hold⟩)
    (h.chain v))

/-- The vector of the block at the front of the chain is put back. -/
theorem unhook (h : pc.Safe m ch) (hb : b ∈ m.blocks) (hat : b.handler pc v = some (m.ivt v))
    (hold : b.program.old v = some p) :
    ∃ ps, ch v = m.ivt v :: ps ∧ pc.Safe (m.call (.setvect v p)) (Function.update ch v ps) := by
  have hchain := h.chain v
  cases hch : ch v with
  | nil =>
      rw [hch] at hchain
      exact absurd (Leads.nil_iff.mp hchain) (h.ne_base hb hat)
  | cons q ps =>
      rw [hch] at hchain
      obtain ⟨rfl, -, r, hlink, hrest⟩ := Leads.cons_iff.mp hchain
      obtain ⟨b', hb', hat', hold'⟩ := (Machine.link_iff h.laid).mp hlink
      obtain rfl := h.laid.eq_of_handler hb' hb hat' hat
      rw [hold, Option.some.injEq] at hold'
      subst hold'
      exact ⟨ps, rfl, h.setvect hrest⟩

/-- `state` is filled in. -/
theorem store (h : pc.Safe m ch) (hb : b ∈ m.blocks) (hprog : b.program = .dosshd none)
    (hnone : ∀ b ∈ m.blocks, ¬ b.Resident) (st : ResidentState) :
    pc.Safe (m.call (.store b.psp st)) ch := by
  have hother : ∀ v p, ∀ b' ∈ m.blocks, b'.handler pc v = some p → b'.psp ≠ b.psp := by
    intro v p b' hb' hat heq
    obtain rfl := h.laid.eq_of_psp hb' hb heq
    simp [Block.handler, hprog, Program.handler] at hat
  have hlaid : pc.Laid (m.call (.store b.psp st)).blocks := by
    refine ⟨List.pairwise_map.mpr (h.laid.apart.imp fun {b₁ b₂} hapart => ?_), fun b' hb' => ?_⟩
    · simp only [Block.Apart]
      split <;> split <;> exact hapart
    · obtain ⟨b₁, hb₁, rfl⟩ := List.mem_map.mp hb'
      split
      next heq =>
        obtain rfl := h.laid.eq_of_psp hb₁ hb heq
        have hproper := h.laid.proper b₁ hb₁
        exact ⟨hproper.pos, hproper.end_lt, hproper.outside, fun _ _ => hproper.image _ hprog,
          fun _ ht => (by cases ht), fun _ ht => (by cases ht)⟩
      next => exact h.laid.proper b₁ hb₁
  have hsame : ∀ b' ∈ m.blocks, b'.psp ≠ b.psp → b' ∈ (m.call (.store b.psp st)).blocks :=
    fun b' hb' hne => List.mem_map.mpr ⟨b', hb', if_neg hne⟩
  refine ⟨hlaid, fun v => ?_, fun int hs hhs hd hhd => ?_, fun b₁ hb₁ b₂ hb₂ hres₁ hres₂ => ?_⟩
  · exact leads_of_blocks h.laid hlaid (h.chain v) fun p _ b' hb' hat =>
      ⟨b', hsame b' hb' (hother v p b' hb' hat), hat, rfl⟩
  · obtain ⟨b', hb', hprog', hrcv⟩ := h.receivers int hs hhs hd hhd
    by_cases heq : b'.psp = b.psp
    · exact ⟨{ b' with program := .dosshd (some st) }, List.mem_map.mpr ⟨b', hb', if_pos heq⟩,
        ⟨some st, rfl⟩, hrcv⟩
    · exact ⟨b', hsame b' hb' heq, hprog', hrcv⟩
  · obtain ⟨b₁', hb₁', rfl⟩ := List.mem_map.mp hb₁
    obtain ⟨b₂', hb₂', rfl⟩ := List.mem_map.mp hb₂
    have hnew : ∀ b' ∈ m.blocks, Block.Resident (if b'.psp = b.psp then
        { b' with program := .dosshd (some st) } else b') → b'.psp = b.psp := by
      intro b' hb' hres
      by_contra hne
      rw [if_neg hne] at hres
      exact hnone b' hb' hres
    have heq₁ := hnew b₁' hb₁' hres₁
    have heq₂ := hnew b₂' hb₂' hres₂
    obtain rfl := h.laid.eq_of_psp hb₁' hb₂' (heq₁.trans heq₂.symm)
    rfl

/-- An environment is given back. -/
theorem freeData (h : pc.Safe m ch) (hb : b ∈ m.blocks) (hprog : b.program = .data) :
    pc.Safe (m.call (.freemem b.psp)) ch := by
  refine h.free (fun v p _ b' hb' hat heq => ?_) fun int hs _ hd _ b' hb' hcopy _ heq => ?_
  · obtain rfl := h.laid.eq_of_psp hb' hb heq
    simp [Block.handler, hprog, Program.handler] at hat
  · obtain rfl := h.laid.eq_of_psp hb' hb heq
    obtain ⟨st, hst⟩ := hcopy
    rw [hprog] at hst
    cases hst

/-- A copy of DOSSHD that did not stay is given back. -/
theorem freeCopy (h : pc.Safe m ch) (hb : b ∈ m.blocks) (hprog : b.program = .dosshd none)
    (hrcv : ∀ int hs, m.drv int = some hs → ∀ h ∈ hs, h.2 ≠ pc.image.receiver.loaded b.psp) :
    pc.Safe (m.call (.freemem b.psp)) ch := by
  refine h.free (fun v p _ b' hb' hat heq => ?_) fun int hs hhs hd hhd b' hb' _ hat heq => ?_
  · obtain rfl := h.laid.eq_of_psp hb' hb heq
    simp [Block.handler, hprog, Program.handler] at hat
  · exact hrcv int hs hhs hd hhd (heq ▸ hat)

end Pc.Safe

end

/-! ## The presence check -/

/-- The handler of the program answers for the multiplex id. -/
def Block.Answers (b : Block) : Prop :=
  match b.program with
  | .dosshd _ => True
  | .tsr t => t.reply.isSome
  | .data => False

section

variable {pc : Pc} {m : Machine} {ch : Vec → List FarPtr} {b : Block} {v : Vec} {p : FarPtr}

namespace Pc.Safe

/-- A block has one handler for a vector, so a chain is not longer than the list of blocks. -/
theorem length_le (h : pc.Safe m ch) (v : Vec) : (ch v).length ≤ m.blocks.length := by
  have hsub : ch v ⊆ m.blocks.filterMap (Block.handler pc v) := by
    intro p hp
    obtain ⟨b, hb, hat, -⟩ := h.handler hp
    exact List.mem_filterMap.mpr ⟨b, hb, hat⟩
  have hlen := ((h.chain v).nodup.subperm hsub).length_le
  exact Nat.le_trans hlen (List.length_filterMap_le _ _)

/-- A call with the multiplex id comes back, and with AL = FFh exactly if a program on its way
answers. -/
theorem mpxCall (h : pc.Safe m ch) {ps : List FarPtr}
    (hleads : Leads (m.link pc .mpx) (pc.base .mpx) p ps) {fuel : Nat} (hfuel : ps.length < fuel) :
    ∃ al r, m.mpxCall pc fuel p = some (al, r) ∧
      (al = 0xFF ↔ ∃ q ∈ ps, ∃ b ∈ m.blocks, b.handler pc .mpx = some q ∧ b.Answers) := by
  induction hleads generalizing fuel with
  | base =>
      cases fuel with
      | zero => simp at hfuel
      | succ fuel => exact ⟨0, ⟨0, 0⟩, by rw [Machine.mpxCall, if_pos rfl], by simp⟩
  | @pass p r ps hne hlink hrest ih =>
      cases fuel with
      | zero => simp at hfuel
      | succ fuel =>
          obtain ⟨b, hb, hat, hold⟩ := (Machine.link_iff h.laid).mp hlink
          have hfind := (Machine.handlerAt_iff h.laid).mpr ⟨hb, hat⟩
          have hone : ∀ b' ∈ m.blocks, b'.handler pc .mpx = some p → b' = b :=
            fun b' hb' hat' => h.laid.eq_of_handler hb' hb hat' hat
          rw [Machine.mpxCall, if_neg hne, hfind]
          dsimp only
          cases hprog : b.program with
          | dosshd st =>
              refine ⟨_, _, rfl, fun _ => ⟨p, List.mem_cons_self, b, hb, hat, ?_⟩, fun _ => rfl⟩
              simp [Block.Answers, hprog]
          | tsr t =>
              dsimp only
              cases hreply : t.reply with
              | some q =>
                  refine ⟨_, _, rfl, fun _ => ⟨p, List.mem_cons_self, b, hb, hat, ?_⟩, fun _ => rfl⟩
                  simp [Block.Answers, hprog, hreply]
              | none =>
                  rw [hprog] at hold
                  simp only [Program.old, Option.some.injEq] at hold
                  subst hold
                  simp only [List.length_cons] at hfuel
                  obtain ⟨al, q, heq, hiff⟩ := ih (by omega : ps.length < fuel)
                  refine ⟨al, q, heq, hiff.trans ⟨?_, ?_⟩⟩
                  · rintro ⟨q', hq', hans⟩
                    exact ⟨q', List.mem_cons_of_mem _ hq', hans⟩
                  · rintro ⟨q', hq', b', hb', hat', hans⟩
                    rcases List.mem_cons.mp hq' with rfl | hq'
                    · obtain rfl := hone b' hb' hat'
                      simp [Block.Answers, hprog, hreply] at hans
                    · exact ⟨q', hq', b', hb', hat', hans⟩
          | data => simp [Block.handler, hprog, Program.handler] at hat

/-- `state` is where the resident DOSSHD says. -/
theorem stateAt_iff (h : pc.Safe m ch) {st : ResidentState} : m.stateAt pc p = some st ↔
    ∃ b ∈ m.blocks, b.program = .dosshd (some st) ∧ pc.image.state.loaded b.psp = p := by
  have hfound : ∀ {st}, m.stateAt pc p = some st →
      ∃ b ∈ m.blocks, b.program = .dosshd (some st) ∧ pc.image.state.loaded b.psp = p := by
    intro st hst
    obtain ⟨b, hb, heq⟩ := List.exists_of_findSome?_eq_some hst
    refine ⟨b, hb, ?_⟩
    cases hprog : b.program with
    | dosshd st' =>
        rw [hprog] at heq
        cases st' with
        | none => cases heq
        | some st' =>
            dsimp only at heq
            split at heq
            next hp =>
              rw [Option.some.injEq] at heq
              exact ⟨by rw [heq], hp⟩
            next => cases heq
    | tsr t =>
        rw [hprog] at heq
        cases heq
    | data =>
        rw [hprog] at heq
        cases heq
  refine ⟨hfound, ?_⟩
  rintro ⟨b, hb, hprog, hp⟩
  cases hst : m.stateAt pc p with
  | none =>
      have hnone := List.findSome?_eq_none_iff.mp hst b hb
      simp [hprog, hp] at hnone
  | some st' =>
      obtain ⟨b', hb', hprog', -⟩ := hfound hst
      obtain rfl := h.one b' hb' b hb ⟨st', hprog'⟩ ⟨st, hprog⟩
      rw [hprog] at hprog'
      cases hprog'
      rfl

/-- `find_resident` finds a DOSSHD in memory. -/
theorem found (h : pc.Safe m ch) {st : ResidentState} (hfound : findResident pc m = .resident st) :
    ∃ b ∈ m.blocks, b.program = .dosshd (some st) := by
  unfold findResident at hfound
  split at hfound
  · cases hfound
  · split at hfound
    · cases hfound
    · split at hfound
      · split at hfound
        next st' hst =>
          cases hfound
          obtain ⟨b, hb, hprog, -⟩ := h.stateAt_iff.mp hst
          exact ⟨b, hb, hprog⟩
        next => cases hfound
      · cases hfound

/-- When `find_resident` finds nothing, no program on the chain answers. -/
theorem absent (h : pc.Safe m ch) (hfound : findResident pc m = .absent) :
    ∀ q ∈ ch .mpx, ∀ b ∈ m.blocks, b.handler pc .mpx = some q → ¬ b.Answers := by
  have hfuel : (ch .mpx).length < m.blocks.length + 1 := Nat.lt_succ_of_le (h.length_le .mpx)
  obtain ⟨al, r, hcall, hiff⟩ := h.mpxCall (h.chain .mpx) hfuel
  intro q hq b hb hat hans
  have hal := hiff.mpr ⟨q, hq, b, hb, hat, hans⟩
  unfold findResident at hfound
  rw [hcall] at hfound
  subst hal
  simp only [ne_eq, not_true_eq_false, if_false] at hfound
  split at hfound
  · split at hfound
    · cases hfound
    · cases hfound
  · cases hfound

/-- A DOSSHD at the front of the chain is found. -/
theorem front (h : pc.Safe m ch) {st : ResidentState} (hb : b ∈ m.blocks)
    (hprog : b.program = .dosshd (some st))
    (htop : m.ivt .mpx = (pc.image.isr .mpx).loaded b.psp) : findResident pc m = .resident st := by
  have hat : b.handler pc .mpx = some (m.ivt .mpx) := by rw [htop, Block.handler_resident hprog]
  have hpos := (h.laid.proper b hb).pos
  have hfind := (Machine.handlerAt_iff h.laid).mpr ⟨hb, hat⟩
  have hcall : m.mpxCall pc (m.blocks.length + 1) (m.ivt .mpx) =
      some (0xFF, pc.image.state.loaded b.psp) := by
    rw [Machine.mpxCall, if_neg (h.ne_base hb hat), hfind]
    dsimp only
    rw [hprog]
  have hne : pc.image.state.loaded b.psp ≠ ⟨0, 0⟩ := by
    simp only [FarPtr.loaded, ne_eq, FarPtr.mk.injEq]
    omega
  unfold findResident
  rw [hcall]
  dsimp only
  rw [if_neg (by simp), if_pos hne, h.stateAt_iff.mpr ⟨b, hb, hprog, rfl⟩]

end Pc.Safe

end

end Dossh
