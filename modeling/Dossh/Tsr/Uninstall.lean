import Dossh.Tsr.Install

/-!
# Going

`uninstall` compares segments: it takes a DOSSHD out whose block both vectors lead into.  That is one
in front of both chains (`uninstall_cases`).  The order of its calls matters: nothing leads into the
block any more when it is given back (`Pc.Settled.uninstalls`).
-/

namespace Dossh

open Chain (Leads)

section

variable {pc : Pc} {m : Machine} {ch : Vec → List FarPtr} {b : Block} {v : Vec} {p : FarPtr}
  {e : Exec}

/-! ## DOSSHD goes -/

/-- DOSSHD is resident in this block and in front of both chains. -/
structure Pc.Front (pc : Pc) (m : Machine) (b : Block) (st : ResidentState) : Prop where
  mem : b ∈ m.blocks
  program : b.program = .dosshd (some st)
  top : ∀ v, m.ivt v = (pc.image.isr v).loaded b.psp

/-- `release_type`, as far as `uninstall` calls it. -/
def ResidentState.release (st : ResidentState) : List DosCall :=
  if st.mode then [.releaseType st.pktInt st.pktHandle] else []

/-- The machine without the DOSSHD in front. -/
def Machine.without (m : Machine) (b : Block) (st : ResidentState) : Machine where
  ivt := st.old
  drv := (m.run st.release).drv
  blocks := m.blocks.filter fun b' => b'.psp ≠ b.psp

/-- `block_paras` of a block in memory. -/
theorem blockParas_eq (h : pc.Laid m.blocks) (hb : b ∈ m.blocks) :
    blockParas m b.psp = b.paras := by
  unfold blockParas
  cases hfind : m.blocks.find? fun b' => b'.psp = b.psp with
  | none =>
      have hnone := List.find?_eq_none.mp hfind b hb
      simp at hnone
  | some b' =>
      have hpsp := List.find?_some hfind
      simp only [decide_eq_true_eq] at hpsp
      rw [h.eq_of_psp (List.mem_of_find?_eq_some hfind) hb hpsp]
      rfl

/-- `uninstall` takes DOSSHD out if it is in front of both chains, and does nothing otherwise. -/
theorem uninstall_cases (h : pc.Safe m ch)
    (hpsp : ∀ b ∈ m.blocks, ∀ st, b.program = .dosshd (some st) → st.psp = b.psp) :
    (∃ b st, pc.Front m b st ∧ uninstall pc m = (0, [.setvect .tick (st.old .tick),
      .setvect .mpx (st.old .mpx)] ++ st.release ++ [.freemem b.psp])) ∨
    ((¬ ∃ b st, pc.Front m b st) ∧ uninstall pc m = (1, [])) := by
  by_cases hfront : ∃ b st, pc.Front m b st
  · obtain ⟨b, st, hf⟩ := hfront
    refine .inl ⟨b, st, hf, ?_⟩
    have hproper := h.laid.proper b hf.mem
    have hlt := hproper.end_lt
    have hat : ∀ v, b.handler pc v = some ((pc.image.isr v).loaded b.psp) :=
      Block.handler_resident hf.program
    have htick := hproper.covers (hat .tick)
    have hmpx := hproper.covers (hat .mpx)
    unfold uninstall
    rw [h.front hf.mem hf.program (hf.top .mpx)]
    dsimp only
    rw [hpsp b hf.mem st hf.program, blockParas_eq h.laid hf.mem, Nat.mod_eq_of_lt hlt,
      hf.top .tick, hf.top .mpx]
    simp only [Block.Covers] at htick hmpx
    rw [if_neg (by omega)]
    rfl
  · refine .inr ⟨hfront, ?_⟩
    unfold uninstall
    split
    next => rfl
    next => rfl
    next st hfound =>
      obtain ⟨b, hb, hprog⟩ := h.found hfound
      have hlt := (h.laid.proper b hb).end_lt
      dsimp only
      rw [hpsp b hb st hprog, blockParas_eq h.laid hb, Nat.mod_eq_of_lt hlt]
      refine if_pos ?_
      -- a vector that leads into the block leads to its handler
      have htop : ∀ v, b.Covers (m.ivt v).seg → m.ivt v = (pc.image.isr v).loaded b.psp := by
        intro v hcovers
        have hchain := h.chain v
        cases hch : ch v with
        | nil =>
            rw [hch] at hchain
            rw [Leads.nil_iff.mp hchain] at hcovers
            exact absurd hcovers ((h.laid.proper b hb).outside v)
        | cons q ps =>
            rw [hch] at hchain
            obtain ⟨rfl, -⟩ := Leads.cons_iff.mp hchain
            obtain ⟨b', hb', hat, hcovers'⟩ := h.handler (p := m.ivt v) (v := v) (by
              rw [hch]
              exact List.mem_cons_self)
            obtain rfl := h.laid.eq_of_covers hb hb' hcovers hcovers'
            rw [Block.handler_resident hprog, Option.some.injEq] at hat
            exact hat.symm
      by_contra hnot
      refine hfront ⟨b, st, hb, hprog, fun v => htop v ?_⟩
      cases v with
      | tick => exact ⟨by omega, by omega⟩
      | mpx => exact ⟨by omega, by omega⟩

namespace Pc.Front

variable {st : ResidentState}

/-- Loading another copy does not change which DOSSHD is in front. -/
theorem load_iff (e : Exec) : pc.Front (m.run e.load) b st ↔ pc.Front m b st := by
  constructor
  · rintro ⟨hb, hprog, htop⟩
    rw [Pc.Runs.load_ivt] at htop
    exact ⟨Pc.Runs.of_load hb hprog, hprog, htop⟩
  · rintro ⟨hb, hprog, htop⟩
    rw [← Pc.Runs.load_ivt e] at htop
    exact ⟨Pc.Runs.mem_load hb, hprog, htop⟩

/-- Its handlers are the first of the chains. -/
theorem chain (hf : pc.Front m b st) (h : pc.Safe m ch) (v : Vec) :
    ch v = m.ivt v :: (ch v).tail := by
  have hchain := h.chain v
  have hat : b.handler pc v = some (m.ivt v) := by rw [hf.top v, Block.handler_resident hf.program]
  cases hch : ch v with
  | nil =>
      rw [hch] at hchain
      exact absurd (Leads.nil_iff.mp hchain) (h.ne_base hf.mem hat)
  | cons q ps =>
      rw [hch] at hchain
      rw [(Leads.cons_iff.mp hchain).1]
      rfl

/-- Behind it on the chains are the handlers of other programs. -/
theorem others (hf : pc.Front m b st) (h : pc.Safe m ch) {b' : Block} (hb' : b' ∈ m.blocks)
    (hat : b'.handler pc v = some p) (hp : p ∈ (ch v).tail) : b'.psp ≠ b.psp := by
  intro heq
  obtain rfl := h.laid.eq_of_psp hb' hf.mem heq
  rw [Block.handler_resident hf.program, Option.some.injEq, ← hf.top v] at hat
  have hnodup := (h.chain v).nodup
  rw [hf.chain h v, List.nodup_cons] at hnodup
  exact hnodup.1 (hat ▸ hp)

/-- After `release_type` no driver has a handle. -/
theorem released (hf : pc.Front m b st) (h : pc.Settled m ch) :
    ∀ int hs, (m.run st.release).drv int = some hs → hs = [] := by
  have hmine : ∀ int hs, m.drv int = some hs → ∀ h ∈ hs,
      st.mode = true ∧ st.pktInt = int ∧ st.pktHandle = h.1 := fun int hs hhs hd hhd =>
    h.handle int hs hhs hd hhd b hf.mem st hf.program
  intro int hs hhs
  unfold ResidentState.release at hhs
  cases hmode : st.mode with
  | false =>
      rw [hmode] at hhs
      refine List.eq_nil_iff_forall_not_mem.mpr fun hd hhd => ?_
      have hnet := (hmine int hs hhs hd hhd).1
      rw [hmode] at hnet
      cases hnet
  | true =>
      rw [hmode] at hhs
      change Function.update m.drv st.pktInt ((m.drv st.pktInt).map
        (·.filter fun h => h.1 ≠ st.pktHandle)) int = some hs at hhs
      refine List.eq_nil_iff_forall_not_mem.mpr fun hd hhd => ?_
      by_cases hint : int = st.pktInt
      · subst hint
        rw [Function.update_self, Option.map_eq_some_iff] at hhs
        obtain ⟨old, hold, rfl⟩ := hhs
        obtain ⟨hhd, hother⟩ := List.mem_filter.mp hhd
        exact of_decide_eq_true hother (hmine _ old hold hd hhd).2.2.symm
      · rw [Function.update_of_ne hint] at hhs
        exact hint (hmine int hs hhs hd hhd).2.1.symm

end Pc.Front

/-- Both vectors are put back, and the chains are those behind it. -/
theorem Pc.Front.unhooks {st : ResidentState} (hf : pc.Front m b st) (h : pc.Safe m ch) :
    m.Through pc.Alright [.setvect .tick (st.old .tick), .setvect .mpx (st.old .mpx)] ∧
      m.run [.setvect .tick (st.old .tick), .setvect .mpx (st.old .mpx)] =
        { m with ivt := st.old } ∧
      pc.Safe { m with ivt := st.old } fun v => (ch v).tail := by
  have hat : ∀ v, b.handler pc v = some (m.ivt v) := fun v => by
    rw [hf.top v, Block.handler_resident hf.program]
  have hold : ∀ v, b.program.old v = some (st.old v) := fun v => by rw [hf.program, Program.old]
  have hne : Vec.mpx ≠ Vec.tick := by decide
  obtain ⟨ps, hps, htick⟩ := h.unhook hf.mem (hat .tick) (hold .tick)
  have hivt : (m.call (.setvect .tick (st.old .tick))).ivt .mpx = m.ivt .mpx :=
    Machine.setvect_of_ne hne
  obtain ⟨qs, hqs, hmpx⟩ := htick.unhook hf.mem ((hat .mpx).trans (congrArg some hivt.symm))
    (hold .mpx)
  rw [Function.update_of_ne hne] at hqs
  have hchain : Function.update (Function.update ch .tick ps) .mpx qs = fun v => (ch v).tail := by
    funext v
    cases v with
    | tick =>
        rw [hps]
        rfl
    | mpx =>
        rw [hqs]
        rfl
  have hrun : m.run [.setvect .tick (st.old .tick), .setvect .mpx (st.old .mpx)] =
      { m with ivt := st.old } := by
    have hivts : Function.update (Function.update m.ivt .tick (st.old .tick)) .mpx (st.old .mpx) =
        st.old := by
      funext v
      cases v <;> rfl
    exact congrArg (fun ivt => { m with ivt := ivt }) hivts
  refine ⟨?_, hrun, ?_⟩
  · simp only [Machine.through_cons, Machine.through_nil]
    exact ⟨⟨ch, h⟩, ⟨_, htick⟩, ⟨_, hmpx⟩⟩
  · rw [← hrun, ← hchain]
    exact hmpx

/-- `release_type` does not touch the chains. -/
theorem Pc.Safe.release {st : ResidentState} (h : pc.Safe m ch)
    (hempty : ∀ int hs, (m.run st.release).drv int = some hs → hs = []) :
    m.Through pc.Alright st.release ∧ pc.Safe (m.run st.release) ch ∧
      m.run st.release = { m with drv := (m.run st.release).drv } := by
  have hsafe : pc.Safe { m with drv := (m.run st.release).drv } ch :=
    h.drivers fun int hs hhs hd hhd => by
      rw [hempty int hs hhs] at hhd
      cases hhd
  have hframe : m.run st.release = { m with drv := (m.run st.release).drv } := by
    unfold ResidentState.release
    split <;> rfl
  rw [← hframe] at hsafe
  refine ⟨?_, hsafe, hframe⟩
  unfold ResidentState.release at hsafe ⊢
  by_cases hmode : st.mode = true
  · rw [if_pos hmode] at hsafe ⊢
    rw [Machine.through_cons, Machine.through_nil]
    exact ⟨⟨ch, h⟩, ⟨ch, hsafe⟩⟩
  · rw [if_neg hmode]
    exact Machine.through_nil.mpr ⟨ch, h⟩

/-- DOSSHD is taken out. -/
theorem Pc.Settled.uninstalls (h : pc.Settled m ch) (hruns : pc.Runs m e) {st : ResidentState}
    (hf : pc.Front m b st) :
    (m.run e.load).Through pc.Alright (([.setvect .tick (st.old .tick),
      .setvect .mpx (st.old .mpx)] ++ st.release ++ [.freemem b.psp]) ++ e.exit) ∧
    (m.run e.load).run (([.setvect .tick (st.old .tick),
      .setvect .mpx (st.old .mpx)] ++ st.release ++ [.freemem b.psp]) ++ e.exit) = m.without b st ∧
    pc.Settled (m.without b st) fun v => (ch v).tail := by
  have hsafe := (hruns.through_load h.toSafe).2
  have hf₁ := (Pc.Front.load_iff e).mpr hf
  have hempty := hf.released h
  obtain ⟨hunhooks, hunhooked, hmpx⟩ := hf₁.unhooks hsafe
  -- the driver forgets the receiver
  have hdrv : (Machine.run { m.run e.load with ivt := st.old } st.release).drv =
      (m.run st.release).drv := by
    rw [Pc.Runs.run_load]
    unfold ResidentState.release
    split <;> rfl
  obtain ⟨hthrough, hreleased, hframe⟩ := hmpx.release (by rw [hdrv]; exact hempty)
  rw [hdrv] at hframe
  rw [hframe] at hreleased
  -- nothing leads into the block any more
  have hfree := hreleased.free
    (fun v p hp b' hb' hat => hf₁.others hsafe hb' hat hp) fun int hs hhs hd hhd => by
      rw [hempty int hs hhs] at hhd
      cases hhd
  have hblocks : (m.run e.load).blocks.filter (fun b' => b'.psp ≠ b.psp) =
      ⟨e.psp, e.paras, .dosshd none⟩ ::
        (e.envBlocks ++ m.blocks.filter fun b' => b'.psp ≠ b.psp) := by
    rw [Pc.Runs.load_blocks, List.filter_cons,
      if_pos (decide_eq_true (hruns.ne_psp h.laid b hf.mem).symm), List.filter_append,
      filter_fresh fun env henv => (hruns.ne_env h.laid henv b hf.mem).symm]
  have hsub : ∀ b' ∈ m.blocks.filter fun b' => b'.psp ≠ b.psp, b' ∈ m.blocks :=
    fun b' hb' => (List.mem_filter.mp hb').1
  obtain ⟨hexit, hend⟩ := hruns.through_exit h.laid hsub hblocks hfree
    fun int hs hhs hd hhd => by
      rw [hempty int hs hhs] at hhd
      cases hhd
  have hwithout : (Machine.call { m.run e.load with ivt := st.old, drv := (m.run st.release).drv }
      (.freemem b.psp)).run e.exit = m.without b st := hruns.run_exit h.laid hsub hblocks
  rw [hwithout] at hend
  have hrun : (m.run e.load).run (([.setvect .tick (st.old .tick), .setvect .mpx (st.old .mpx)] ++
      st.release ++ [.freemem b.psp]) ++ e.exit) = m.without b st := by
    rw [Machine.run_append, Machine.run_append, Machine.run_append, hunhooked, hframe]
    exact hwithout
  refine ⟨?_, hrun, hend, fun b' hb' v p hat' => ?_, fun b' hb' => h.stay b' (hsub b' hb'),
    fun b' hb' => h.psp b' (hsub b' hb'), fun int hs hhs hd hhd => ?_⟩
  · simp only [Machine.through_append, Machine.run_append, hunhooked, hframe]
    have hfreed : Machine.Through pc.Alright { m.run e.load with
        ivt := st.old, drv := (m.run st.release).drv } [.freemem b.psp] :=
      Machine.through_cons.mpr ⟨⟨_, hreleased⟩, Machine.through_nil.mpr ⟨_, hfree⟩⟩
    exact ⟨⟨⟨hunhooks, hthrough⟩, hfreed⟩, hexit⟩
  · have hother := (List.mem_filter.mp hb').2
    have hmem := h.all b' (hsub b' hb') v p hat'
    rw [hf.chain h.toSafe v] at hmem
    rcases List.mem_cons.mp hmem with rfl | hmem
    · have hmine : b.handler pc v = some (m.ivt v) := by
        rw [hf.top v, Block.handler_resident hf.program]
      obtain rfl := h.laid.eq_of_handler (hsub b' hb') hf.mem hat' hmine
      simp at hother
    · exact hmem
  · rw [hempty int hs hhs] at hhd
    cases hhd

theorem Pc.Settled.load_psp (h : pc.Settled m ch) (e : Exec) : ∀ b ∈ (m.run e.load).blocks, ∀ st,
    b.program = .dosshd (some st) → st.psp = b.psp := by
  intro b hb st hst
  exact h.psp b (Pc.Runs.of_load hb hst) st hst

/-- `DOSSHD /U`. -/
theorem Pc.Settled.stop (h : pc.Settled m ch) (hruns : pc.Runs m e) :
    pc.Goes (m.run e.load) ((uninstall pc (m.run e.load)).2 ++ e.exit) := by
  have hsafe := (hruns.through_load h.toSafe).2
  rcases uninstall_cases hsafe (h.load_psp e) with ⟨b, st, hf, heq⟩ | ⟨-, heq⟩
  · rw [heq]
    obtain ⟨hthrough, hend, hsettled⟩ := h.uninstalls hruns ((Pc.Front.load_iff e).mp hf)
    refine ⟨hthrough, fun v => (ch v).tail, ?_⟩
    rw [hend]
    exact hsettled
  · rw [heq]
    exact h.exits hruns

end

end Dossh
