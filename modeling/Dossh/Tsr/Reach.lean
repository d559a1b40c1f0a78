import Dossh.Tsr.Uninstall

/-!
# No jump into freed memory

Programs come and go, DOSSHD among them, and interrupts come between any two of their calls.  At
every such moment each vector leads through handlers of programs in memory down to BIOS and DOS, and
a packet driver calls receivers of a DOSSHD in memory only (`residents_safe`).  `DOSSHD /U` takes
DOSSHD out if it is in front of both chains, and otherwise changes nothing (`uninstall_exact`).
Right behind an installation it leaves no trace of it (`uninstall_undoes_install`).
-/

namespace Dossh

open Chain (Leads)

section

variable {pc : Pc} {m : Machine} {ch : Vec → List FarPtr} {b : Block} {v : Vec} {p : FarPtr}
  {e : Exec}

/-! ## Other programs -/

/-- Another resident program takes a vector. -/
theorem Pc.Safe.tsrHook (h : pc.Safe m ch) {t : Tsr} (hb : b ∈ m.blocks)
    (hprog : b.program = .tsr t) (hold : t.old v = m.ivt v) : ∃ ch', m.Through pc.Alright (t.hook v) ∧
      pc.Safe (m.run (t.hook v)) ch' ∧ (∀ v', v' ≠ v → ch' v' = ch v') ∧ (∀ p ∈ ch v, p ∈ ch' v) ∧
      (∀ p, t.hooks v = some p → p ∈ ch' v) ∧ (m.run (t.hook v)).blocks = m.blocks ∧
      (m.run (t.hook v)).drv = m.drv ∧ ∀ v', v' ≠ v → (m.run (t.hook v)).ivt v' = m.ivt v' := by
  unfold Tsr.hook
  cases hhook : t.hooks v with
  | none =>
      exact ⟨ch, Machine.through_nil.mpr ⟨ch, h⟩, h, fun _ _ => rfl, fun _ => id,
        fun _ hp => (by cases hp), rfl, rfl, fun _ _ => rfl⟩
  | some p =>
      have hat : b.handler pc v = some p := by rw [Block.handler_tsr hprog, hhook]
      have hsafe := h.hook hb hat (by rw [hprog, Program.old, hold])
      refine ⟨_, Machine.through_cons.mpr ⟨⟨ch, h⟩, Machine.through_nil.mpr ⟨_, hsafe⟩⟩, hsafe,
        fun v' hv' => Function.update_of_ne hv' _ _, fun q hq => ?_, fun q hq => ?_, rfl, rfl,
        fun v' hv' => Machine.setvect_of_ne hv'⟩
      · rw [Function.update_self]
        exact List.mem_cons_of_mem _ hq
      · cases hq
        rw [Function.update_self]
        exact List.mem_cons_self

/-- Another resident program puts a vector back that leads to it. -/
theorem Pc.Safe.tsrUnhook (h : pc.Safe m ch) {t : Tsr} (hb : b ∈ m.blocks)
    (hprog : b.program = .tsr t) (htop : ∀ p, t.hooks v = some p → m.ivt v = p) :
    ∃ ch', m.Through pc.Alright (t.unhook v) ∧ pc.Safe (m.run (t.unhook v)) ch' ∧
      (∀ v', v' ≠ v → ch' v' = ch v') ∧ (∀ p ∈ ch' v, t.hooks v ≠ some p) ∧
      (∀ p ∈ ch v, t.hooks v ≠ some p → p ∈ ch' v) ∧ (m.run (t.unhook v)).blocks = m.blocks ∧
      (m.run (t.unhook v)).drv = m.drv ∧ ∀ v', v' ≠ v → (m.run (t.unhook v)).ivt v' = m.ivt v' := by
  unfold Tsr.unhook
  cases hhook : t.hooks v with
  | none =>
      exact ⟨ch, Machine.through_nil.mpr ⟨ch, h⟩, h, fun _ _ => rfl, fun _ _ hp => (by cases hp),
        fun _ hp _ => hp, rfl, rfl, fun _ _ => rfl⟩
  | some p =>
      have htop' := htop p hhook
      have hat : b.handler pc v = some (m.ivt v) := by
        rw [Block.handler_tsr hprog, hhook, htop']
      obtain ⟨ps, hps, hsafe⟩ := h.unhook hb hat (by rw [hprog, Program.old])
      refine ⟨_, Machine.through_cons.mpr ⟨⟨ch, h⟩, Machine.through_nil.mpr ⟨_, hsafe⟩⟩, hsafe,
        fun v' hv' => Function.update_of_ne hv' _ _, fun q hq heq => ?_, fun q hq hother => ?_, rfl,
        rfl, fun v' hv' => Machine.setvect_of_ne hv'⟩
      · rw [Function.update_self] at hq
        cases heq
        have hnodup := (h.chain v).nodup
        rw [hps, List.nodup_cons, htop'] at hnodup
        exact hnodup.1 hq
      · rw [hps, htop'] at hq
        rw [Function.update_self]
        rcases List.mem_cons.mp hq with rfl | hq
        · exact absurd rfl hother
        · exact hq

namespace Pc.Settled

/-- Another resident program comes. -/
theorem load (h : pc.Settled m ch) {t : Tsr} (hprog : b.program = .tsr t) (hroom : pc.Room m b)
    (hold : t.old = m.ivt) : pc.Goes m (.alloc b :: (t.hook .tick ++ t.hook .mpx)) := by
  have hnew : ¬ b.Resident := by
    rintro ⟨st, hst⟩
    rw [hprog] at hst
    cases hst
  have halloc := h.toSafe.alloc hroom hnew
  have hmem : b ∈ (m.call (.alloc b)).blocks := List.mem_cons_self
  have hne : Vec.mpx ≠ Vec.tick := by decide
  obtain ⟨ch₁, ht₁, hs₁, hother₁, hkeep₁, hin₁, hblocks₁, hdrv₁, hivt₁⟩ :=
    halloc.tsrHook hmem hprog (congrFun hold .tick)
  have hmem₁ : b ∈ ((m.call (.alloc b)).run (t.hook .tick)).blocks := hblocks₁ ▸ hmem
  have hold₁ : t.old .mpx = ((m.call (.alloc b)).run (t.hook .tick)).ivt .mpx := by
    rw [hivt₁ .mpx hne]
    exact congrFun hold .mpx
  obtain ⟨ch₂, ht₂, hs₂, hother₂, hkeep₂, hin₂, hblocks₂, hdrv₂, -⟩ :=
    hs₁.tsrHook hmem₁ hprog hold₁
  refine ⟨Machine.through_cons.mpr ⟨⟨ch, h.toSafe⟩, Machine.through_append.mpr ⟨ht₁, ht₂⟩⟩, ch₂, ?_⟩
  have hrun : m.run (.alloc b :: (t.hook .tick ++ t.hook .mpx)) =
      ((m.call (.alloc b)).run (t.hook .tick)).run (t.hook .mpx) := Machine.run_append _ _ _
  rw [hrun]
  have hblocks : (((m.call (.alloc b)).run (t.hook .tick)).run (t.hook .mpx)).blocks =
      b :: m.blocks := hblocks₂.trans hblocks₁
  have hdrv : (((m.call (.alloc b)).run (t.hook .tick)).run (t.hook .mpx)).drv = m.drv :=
    hdrv₂.trans hdrv₁
  have hkeep : ∀ v, ∀ p ∈ ch v, p ∈ ch₂ v := by
    intro v p hp
    cases v with
    | tick =>
        rw [hother₂ .tick hne.symm]
        exact hkeep₁ p hp
    | mpx => exact hkeep₂ p (by rw [hother₁ .mpx hne]; exact hp)
  have hin : ∀ v p, t.hooks v = some p → p ∈ ch₂ v := by
    intro v p hp
    cases v with
    | tick =>
        rw [hother₂ .tick hne.symm]
        exact hin₁ p hp
    | mpx => exact hin₂ p hp
  refine ⟨hs₂, fun b' hb' v p hat => ?_, fun b' hb' => ?_, fun b' hb' st hst => ?_,
    fun int hs hhs hd hhd b' hb' st hst => ?_⟩
  all_goals
    rw [hblocks] at hb'
    rcases List.mem_cons.mp hb' with rfl | hb'
  · rw [Block.handler_tsr hprog] at hat
    exact hin v p hat
  · exact hkeep v p (h.all b' hb' v p hat)
  · rw [hprog]
    exact ⟨by simp, by simp⟩
  · exact h.stay b' hb'
  · rw [hprog] at hst
    cases hst
  · exact h.psp b' hb' st hst
  · rw [hprog] at hst
    cases hst
  · rw [hdrv] at hhs
    exact h.handle int hs hhs hd hhd b' hb' st hst

/-- Another resident program goes. -/
theorem unload (h : pc.Settled m ch) {t : Tsr} (hb : b ∈ m.blocks) (hprog : b.program = .tsr t)
    (htop : ∀ v p, t.hooks v = some p → m.ivt v = p) :
    pc.Goes m (t.unhook .tick ++ (t.unhook .mpx ++ [.freemem b.psp])) := by
  have hne : Vec.mpx ≠ Vec.tick := by decide
  obtain ⟨ch₁, ht₁, hs₁, hother₁, hout₁, hkeep₁, hblocks₁, hdrv₁, hivt₁⟩ :=
    h.toSafe.tsrUnhook hb hprog (htop .tick)
  have hb₁ : b ∈ (m.run (t.unhook .tick)).blocks := hblocks₁ ▸ hb
  have htop₁ : ∀ p, t.hooks .mpx = some p → (m.run (t.unhook .tick)).ivt .mpx = p := fun p hp =>
    (hivt₁ .mpx hne).trans (htop .mpx p hp)
  obtain ⟨ch₂, ht₂, hs₂, hother₂, hout₂, hkeep₂, hblocks₂, hdrv₂, -⟩ :=
    hs₁.tsrUnhook hb₁ hprog htop₁
  generalize hm₁ : m.run (t.unhook .tick) = m₁ at *
  generalize hm₂ : m₁.run (t.unhook .mpx) = m₂ at *
  have hblocks : m₂.blocks = m.blocks := hblocks₂.trans hblocks₁
  have hdrv : m₂.drv = m.drv := hdrv₂.trans hdrv₁
  have hout : ∀ v, ∀ p ∈ ch₂ v, t.hooks v ≠ some p := by
    intro v p hp
    cases v with
    | tick =>
        rw [hother₂ .tick hne.symm] at hp
        exact hout₁ p hp
    | mpx => exact hout₂ p hp
  have hkeep : ∀ v, ∀ p ∈ ch v, t.hooks v ≠ some p → p ∈ ch₂ v := by
    intro v p hp hot
    cases v with
    | tick =>
        rw [hother₂ .tick hne.symm]
        exact hkeep₁ p hp hot
    | mpx => exact hkeep₂ p (by rw [hother₁ .mpx hne]; exact hp) hot
  have hfree : pc.Safe (m₂.call (.freemem b.psp)) ch₂ := by
    refine hs₂.free (fun v p hp b' hb' hat heq => ?_) fun int hs hhs hd hhd b' hb' hcopy _ heq => ?_
    · rw [hblocks] at hb'
      obtain rfl := h.laid.eq_of_psp hb' hb heq
      rw [Block.handler_tsr hprog] at hat
      exact hout v p hp hat
    · rw [hblocks] at hb'
      obtain rfl := h.laid.eq_of_psp hb' hb heq
      obtain ⟨st, hst⟩ := hcopy
      rw [hprog] at hst
      cases hst
  have hrun : m.run (t.unhook .tick ++ (t.unhook .mpx ++ [.freemem b.psp])) =
      m₂.call (.freemem b.psp) := by
    rw [Machine.run_append, Machine.run_append, hm₁, hm₂]
    rfl
  refine ⟨?_, ch₂, ?_⟩
  · simp only [Machine.through_append, Machine.through_cons, Machine.through_nil, hm₁, hm₂]
    exact ⟨ht₁, ht₂, ⟨ch₂, hs₂⟩, ⟨ch₂, hfree⟩⟩
  rw [hrun]
  have hsub : ∀ b' ∈ (m₂.call (.freemem b.psp)).blocks, b' ∈ m.blocks ∧ b'.psp ≠ b.psp := by
    intro b' hb'
    obtain ⟨hb', hpsp⟩ := List.mem_filter.mp hb'
    exact ⟨hblocks ▸ hb', of_decide_eq_true hpsp⟩
  refine ⟨hfree, fun b' hb' v p hat => ?_, fun b' hb' => h.stay b' (hsub b' hb').1,
    fun b' hb' => h.psp b' (hsub b' hb').1, fun int hs hhs hd hhd b' hb' => ?_⟩
  · refine hkeep v p (h.all b' (hsub b' hb').1 v p hat) fun hmine => ?_
    have hat' : b.handler pc v = some p := by rw [Block.handler_tsr hprog, hmine]
    exact (hsub b' hb').2 (congrArg Block.psp (h.laid.eq_of_handler (hsub b' hb').1 hb hat hat'))
  · have hhs' : m.drv int = some hs := hdrv ▸ hhs
    exact h.handle int hs hhs' hd hhd b' (hsub b' hb').1

/-- A packet driver comes or goes. -/
theorem driver (h : pc.Settled m ch) (int : Nat) {handles : Option (List (Nat × FarPtr))}
    (hidle : ∀ hs, handles = some hs → hs = []) : pc.Goes m [.driver int handles] := by
  have hdrv : ∀ int' hs, Function.update m.drv int handles int' = some hs → ∀ hd ∈ hs,
      m.drv int' = some hs := by
    intro int' hs hhs hd hhd
    by_cases hint : int' = int
    · subst hint
      rw [Function.update_self] at hhs
      rw [hidle hs hhs] at hhd
      cases hhd
    · rwa [Function.update_of_ne hint] at hhs
  have hsafe : pc.Safe (m.call (.driver int handles)) ch :=
    h.toSafe.drivers fun int' hs hhs hd hhd => h.receivers int' hs (hdrv int' hs hhs hd hhd) hd hhd
  refine ⟨Machine.through_cons.mpr ⟨⟨ch, h.toSafe⟩, Machine.through_nil.mpr ⟨ch, hsafe⟩⟩, ch, hsafe,
    h.all, h.stay, h.psp, fun int' hs hhs hd hhd => ?_⟩
  exact h.handle int' hs (hdrv int' hs hhs hd hhd) hd hhd

/-- Every program that can run is safe, and leads to a machine between commands. -/
theorem step (h : pc.Settled m ch) {calls : List DosCall} (hstep : pc.Step m calls) :
    pc.Goes m calls := by
  cases hstep with
  | start s hruns =>
      have hload := (hruns.through_load h.toSafe).1
      obtain ⟨hthrough, hend⟩ := h.start hruns
      exact ⟨Machine.through_append.mpr ⟨hload, hthrough⟩, by rw [Machine.run_append]; exact hend⟩
  | stop e hruns =>
      have hload := (hruns.through_load h.toSafe).1
      obtain ⟨hthrough, hend⟩ := h.stop hruns
      exact ⟨Machine.through_append.mpr ⟨hload, hthrough⟩, by rw [Machine.run_append]; exact hend⟩
  | load b t hprog hroom hold => exact h.load hprog hroom hold
  | unload b t hb hprog htop => exact h.unload hb hprog htop
  | driver int hnone => exact h.driver int fun hs hhs => (by cases hhs; rfl)
  | driverGone int hidle => exact h.driver int fun hs hhs => (by cases hhs)

end Pc.Settled

theorem Pc.Reach.settled (h : pc.Reach m) : ∃ ch, pc.Settled m ch := by
  induction h with
  | boot =>
      refine ⟨fun _ => [], ⟨⟨List.Pairwise.nil, ?_⟩, fun v => .base, ?_, ?_⟩, ?_, ?_, ?_, ?_⟩
      all_goals simp
  | step h hstep ih =>
      obtain ⟨ch, hsettled⟩ := ih
      exact (hsettled.step hstep).2

/-! ## Main results -/

/-- What an interrupt finds: each vector leads through handlers in memory to BIOS and DOS, the
presence check returns, a packet driver calls into a DOSSHD in memory, and there is at most one. -/
structure Pc.Sane (pc : Pc) (m : Machine) : Prop where
  chain : ∀ v, ∃ ps, Leads (m.link pc v) (pc.base v) (m.ivt v) ps ∧
    ∀ p ∈ ps, ∃ b ∈ m.blocks, b.handler pc v = some p ∧ b.Covers p.seg
  presence : ∃ al r, m.mpxCall pc (m.blocks.length + 1) (m.ivt .mpx) = some (al, r)
  receivers : ∀ int hs, m.drv int = some hs → ∀ h ∈ hs, ∃ b ∈ m.blocks,
    (∃ st, b.program = .dosshd st) ∧ h.2 = pc.image.receiver.loaded b.psp ∧ b.Covers h.2.seg
  one : ∀ b ∈ m.blocks, ∀ b' ∈ m.blocks, b.Resident → b'.Resident → b = b'

theorem Pc.Safe.sane (h : pc.Safe m ch) : pc.Sane m where
  chain v := ⟨ch v, h.chain v, fun _ hp => h.handler hp⟩
  presence := by
    obtain ⟨al, r, hcall, -⟩ := h.mpxCall (h.chain .mpx) (Nat.lt_succ_of_le (h.length_le .mpx))
    exact ⟨al, r, hcall⟩
  receivers int hs hhs hd hhd := by
    obtain ⟨b, hb, ⟨st, hst⟩, hrcv⟩ := h.receivers int hs hhs hd hhd
    have hfit := ((h.laid.proper b hb).image st hst).receiver
    refine ⟨b, hb, ⟨st, hst⟩, hrcv, ?_⟩
    rw [hrcv]
    simp only [FarPtr.loaded, Block.Covers]
    omega
  one := h.one

/-- **No jump into freed memory.**  Whatever programs came and went before, between any two calls of
the program that runs now an interrupt and a received frame find handlers and a receiver in memory
only. -/
theorem residents_safe (hreach : pc.Reach m) {calls : List DosCall} (hstep : pc.Step m calls)
    {done : List DosCall} (hdone : done <+: calls) : pc.Sane (m.run done) := by
  obtain ⟨ch, h⟩ := hreach.settled
  obtain ⟨ch', hsafe⟩ := (h.step hstep).1 done hdone
  exact hsafe.sane

end

/-- A layout of DOSSHD, and where BIOS and DOS handle the two interrupts. -/
def samplePc : Pc where
  image := {
    isr := fun v => match v with
      | .tick => ⟨16, 0x100⟩
      | .mpx => ⟨16, 0x200⟩
    state := ⟨0x40, 0⟩
    receiver := ⟨16, 0x300⟩ }
  base := fun v => match v with
    | .tick => ⟨0xF000, 0xFF53⟩
    | .mpx => ⟨0x70, 0x1000⟩

/-- A machine with a packet driver. -/
def sampleMachine : Machine :=
  (⟨samplePc.base, fun _ => none, []⟩ : Machine).run [.driver 0x60 (some [])]

/-- `DOSSHD /NET`. -/
def sampleStart : Start :=
  { psp := 0x1000, paras := 0x800, env := some (0xF00, 0x10), net := true, grant := some 7 }

theorem sampleMachine_reach : samplePc.Reach sampleMachine := .step .boot (.driver 0x60 rfl)

theorem sampleImage_fits {paras : Nat} (h : 0x40 < paras) : samplePc.image.Fits paras := by
  refine ⟨fun v => ?_, h, ?_⟩
  · cases v <;> simp only [samplePc] <;> omega
  · simp only [samplePc]
    omega

/-- A block below the BIOS for a copy of DOSSHD or its environment. -/
theorem sample_proper {psp paras : Nat} {prog : Program} (hpos : 0 < paras) (hlow : 0x70 < psp)
    (hhigh : psp + paras ≤ 0xA000) (hdosshd : ∀ st, prog = .dosshd st → 0x40 < paras)
    (hother : ∀ t, prog ≠ .tsr t) : (⟨psp, paras, prog⟩ : Block).Proper samplePc := by
  have hpsp : 0 < psp := by omega
  have hend : psp + paras < 2 ^ 16 := by omega
  refine ⟨⟨hpsp, hpos⟩, hend, fun v => ?_, fun st hst => sampleImage_fits (hdosshd st hst),
    fun t ht => absurd ht (hother t), fun t ht => absurd ht (hother t)⟩
  cases v <;> simp only [Block.Covers, samplePc] <;> omega

theorem sampleStart_runs : samplePc.Runs sampleMachine sampleStart.toExec where
  env b hb := by
    rw [List.mem_singleton.mp hb]
    refine ⟨sample_proper ?_ ?_ ?_ ?_ ?_, fun b hb => ?_⟩
    · decide
    · decide
    · decide
    · exact fun st hst => (by cases hst)
    · exact fun t ht => (by cases ht)
    · cases hb
  psp := by
    refine ⟨sample_proper ?_ ?_ ?_ ?_ ?_, fun b hb => ?_⟩
    · decide
    · decide
    · decide
    · exact fun st hst => (by decide)
    · exact fun t ht => (by cases ht)
    · rw [List.mem_singleton.mp hb]
      exact .inr (by decide)

/-- The vector of the multiplex interrupt is taken, that of the tick is not. -/
theorem residents_safe_start :
    samplePc.Sane (sampleMachine.run ((sampleStart.load ++
      (dosshdMain samplePc (sampleMachine.run sampleStart.load) sampleStart).2).take 5)) := by
  have hdone := List.take_prefix 5 (sampleStart.load ++
    (dosshdMain samplePc (sampleMachine.run sampleStart.load) sampleStart).2)
  exact residents_safe sampleMachine_reach (.start sampleStart sampleStart_runs) hdone

section

variable {pc : Pc} {m : Machine} {ch : Vec → List FarPtr} {e : Exec}

/-- **Uninstalling.**  If a DOSSHD is in front of both chains, `DOSSHD /U` puts back the vectors it
found, gives back its memory and its handle and changes nothing else, and the chains are those behind
it.  Otherwise `DOSSHD /U` fails and changes nothing. -/
theorem uninstall_exact (hreach : pc.Reach m) (hruns : pc.Runs m e) :
    (∃ b st, pc.Front m b st ∧ (uninstall pc (m.run e.load)).1 = 0 ∧
      (m.run e.load).run ((uninstall pc (m.run e.load)).2 ++ e.exit) = m.without b st ∧
      (∀ v ps, Leads (m.link pc v) (pc.base v) (m.ivt v) ps →
        Leads ((m.without b st).link pc v) (pc.base v) (st.old v) ps.tail) ∧
      ∀ int hs, (m.without b st).drv int = some hs → hs = []) ∨
    ((¬ ∃ b st, pc.Front m b st) ∧ (uninstall pc (m.run e.load)).1 = 1 ∧
      (m.run e.load).run ((uninstall pc (m.run e.load)).2 ++ e.exit) = m) := by
  obtain ⟨ch, h⟩ := hreach.settled
  have hsafe := (hruns.through_load h.toSafe).2
  rcases uninstall_cases hsafe (h.load_psp e) with ⟨b, st, hf, heq⟩ | ⟨hnot, heq⟩
  · have hf := (Pc.Front.load_iff e).mp hf
    obtain ⟨-, hend, hsettled⟩ := h.uninstalls hruns hf
    refine .inl ⟨b, st, hf, by rw [heq], by rw [heq]; exact hend, fun v ps hps => ?_, hf.released h⟩
    rw [hps.unique (h.chain v)]
    exact hsettled.chain v
  · have hnone : ¬ ∃ b st, pc.Front m b st := by
      rintro ⟨b, st, hf⟩
      exact hnot ⟨b, st, (Pc.Front.load_iff e).mpr hf⟩
    refine .inr ⟨hnone, by rw [heq], ?_⟩
    rw [heq]
    exact hruns.run_load_exit h.laid

/-- What `main` did when it returned 0. -/
theorem Pc.Settled.main_zero (h : pc.Settled m ch) {s : Start} (hruns : pc.Runs m s.toExec)
    (hzero : (dosshdMain pc (m.run s.load) s).1 = 0) : ∃ int handle drv,
      m.run (s.load ++ (dosshdMain pc (m.run s.load) s).2) = m.staying pc s int handle drv ∧
      (s.net = true → m.drv int = some [] ∧
        drv = Function.update m.drv int (some [(handle, pc.image.receiver.loaded s.psp)])) ∧
      (s.net = false → drv = m.drv) := by
  have hsafe := (hruns.through_load h.toSafe).2
  rw [Machine.run_append]
  unfold dosshdMain at hzero ⊢
  cases hfound : findResident pc (m.run s.load) with
  | resident st =>
      rw [hfound] at hzero
      cases hzero
  | conflict =>
      rw [hfound] at hzero
      cases hzero
  | absent =>
      rw [hfound] at hzero
      have hnone := h.not_resident hruns hfound
      dsimp only at hzero ⊢
      unfold install at hzero ⊢
      by_cases hnet : s.net = true
      · rw [if_pos hnet] at hzero ⊢
        cases hfind : pktFind (m.run s.load) with
        | none =>
            rw [hfind] at hzero
            cases hzero
        | some int =>
            cases hgrant : s.grant with
            | none =>
                rw [hfind, hgrant] at hzero
                cases hzero
            | some handle =>
                have hidle := h.idle_driver hnone hfind
                have haccess := hsafe.access hidle handle
                have hblocks : ((m.run s.load).call (.accessType int handle
                    (pc.image.receiver.loaded s.psp))).blocks = (m.run s.load).blocks := rfl
                have hend := (through_stay hruns h.laid hblocks (Pc.Runs.load_ivt _) haccess hnone
                  int handle).2.1
                rw [← s.stay_load] at hend
                refine ⟨int, handle, _, hend, fun _ => ⟨hidle, ?_⟩, fun hserial => ?_⟩
                · show Function.update (m.run s.load).drv int (((m.run s.load).drv int).map _) = _
                  rw [Pc.Runs.load_drv, hidle]
                  rfl
                · rw [hnet] at hserial
                  cases hserial
      · rw [if_neg hnet]
        have hend := (through_stay hruns h.laid rfl (Pc.Runs.load_ivt _) hsafe hnone 0 0).2.1
        rw [← s.stay_load] at hend
        exact ⟨0, 0, _, hend, fun hnet' => absurd hnet' hnet, fun _ => Pc.Runs.load_drv _⟩

/-- **Installing and uninstalling.**  When DOSSHD stayed, `DOSSHD /U` right behind it succeeds and
leaves the machine as it was before both: the vectors, the memory and the handles of the drivers. -/
theorem uninstall_undoes_install (hreach : pc.Reach m) {s : Start} (hruns : pc.Runs m s.toExec)
    (hzero : (dosshdMain pc (m.run s.load) s).1 = 0)
    (hagain : pc.Runs (m.run (s.load ++ (dosshdMain pc (m.run s.load) s).2)) e) :
    let m' := m.run (s.load ++ (dosshdMain pc (m.run s.load) s).2)
    (uninstall pc (m'.run e.load)).1 = 0 ∧
      (m'.run e.load).run ((uninstall pc (m'.run e.load)).2 ++ e.exit) = m := by
  obtain ⟨ch, h⟩ := hreach.settled
  have hreach' : pc.Reach (m.run (s.load ++ (dosshdMain pc (m.run s.load) s).2)) :=
    hreach.step (.start s hruns)
  obtain ⟨int, handle, drv, hend, hnet, hserial⟩ := h.main_zero hruns hzero
  rw [hend] at hagain hreach' ⊢
  intro m'
  have hfront : pc.Front m' (s.resident m int handle) (s.state m int handle) :=
    ⟨List.mem_cons_self, rfl, fun _ => rfl⟩
  have hwithout : m'.without (s.resident m int handle) (s.state m int handle) = m := by
    have hblocks : m'.blocks.filter (fun b => b.psp ≠ s.psp) = m.blocks :=
      hruns.free_psp h.laid _ fun _ hb => hb
    have hdrv : (m'.run (s.state m int handle).release).drv = m.drv := by
      unfold ResidentState.release
      cases hmode : s.net with
      | false =>
          rw [if_neg (by simp [Start.state, hmode])]
          exact hserial hmode
      | true =>
          obtain ⟨hidle, rfl⟩ := hnet hmode
          rw [if_pos (by simp [Start.state, hmode])]
          show Function.update (Function.update m.drv int _) int
            ((Function.update m.drv int _ int).map _) = m.drv
          rw [Function.update_self, Function.update_idem]
          funext int'
          by_cases hint : int' = int
          · subst hint
            rw [Function.update_self, hidle]
            simp [Start.state]
          · rw [Function.update_of_ne hint]
    show Machine.mk m.ivt (m'.run (s.state m int handle).release).drv
      (m'.blocks.filter fun b => b.psp ≠ s.psp) = m
    rw [hblocks, hdrv]
  rcases uninstall_exact hreach' hagain with ⟨b, st, hf, hone, hlast, -⟩ | ⟨hnot, -⟩
  · obtain ⟨ch', h'⟩ := hreach'.settled
    obtain rfl : b = s.resident m int handle :=
      h'.one b hf.mem _ hfront.mem ⟨st, hf.program⟩ ⟨_, rfl⟩
    have hst := hf.program
    cases hst
    exact ⟨hone, hlast.trans hwithout⟩
  · exact absurd ⟨_, _, hfront⟩ hnot

end

/-- The machine with DOSSHD. -/
def sampleResident : Machine := sampleMachine.run (sampleStart.load ++
  (dosshdMain samplePc (sampleMachine.run sampleStart.load) sampleStart).2)

theorem sampleResident_reach : samplePc.Reach sampleResident :=
  .step sampleMachine_reach (.start sampleStart sampleStart_runs)

/-- `DOSSHD /U`, without an environment. -/
def sampleStop : Exec := { psp := 0x2000, paras := 0x800, env := none }

theorem sampleStop_runs : samplePc.Runs sampleResident sampleStop := by
  have hblocks : sampleResident.blocks.map (fun b => (b.psp, b.paras)) = [(0x1000, 0x800)] := by
    decide +kernel
  have hwhere : ∀ b ∈ sampleResident.blocks, b.psp = 0x1000 ∧ b.paras = 0x800 := by
    intro b hb
    have hmem := List.mem_map_of_mem (f := fun b : Block => (b.psp, b.paras)) hb
    rw [hblocks, List.mem_singleton, Prod.mk.injEq] at hmem
    exact hmem
  refine ⟨fun b hb => absurd hb List.not_mem_nil,
    ⟨sample_proper ?_ ?_ ?_ ?_ ?_, fun b hb => ?_⟩⟩
  · decide
  · decide
  · decide
  · exact fun st hst => (by decide)
  · exact fun t ht => (by cases ht)
  · obtain ⟨hpsp, hparas⟩ := hwhere b hb
    refine .inr ?_
    rw [hpsp, hparas]
    decide

theorem uninstall_exact_start : ∃ b st, samplePc.Front sampleResident b st ∧
    (sampleResident.run sampleStop.load).run ((uninstall samplePc
      (sampleResident.run sampleStop.load)).2 ++ sampleStop.exit) = sampleResident.without b st ∧
    ∀ int hs, (sampleResident.without b st).drv int = some hs → hs = [] := by
  have hzero : (uninstall samplePc (sampleResident.run sampleStop.load)).1 = 0 := by decide +kernel
  rcases uninstall_exact sampleResident_reach sampleStop_runs with ⟨b, st, hf, -, hend, -, hdrv⟩ | h
  · exact ⟨b, st, hf, hend, hdrv⟩
  · rw [h.2.1] at hzero
    cases hzero

theorem uninstall_undoes_install_start :
    (sampleResident.run sampleStop.load).run ((uninstall samplePc
      (sampleResident.run sampleStop.load)).2 ++ sampleStop.exit) = sampleMachine := by
  have hzero : (dosshdMain samplePc (sampleMachine.run sampleStart.load) sampleStart).1 = 0 := by
    decide +kernel
  exact (uninstall_undoes_install sampleMachine_reach sampleStart_runs hzero sampleStop_runs).2

end Dossh
