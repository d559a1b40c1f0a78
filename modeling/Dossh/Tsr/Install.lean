import Dossh.Tsr.Safety

/-!
# Coming

The programs that can run are DOSSHD, which stays or not, `DOSSHD /U`, other resident programs that
come or go, and packet drivers (`Pc.Step`).  Between the commands every resident program has its
handlers on the chains (`Pc.Settled`).  Here DOSSHD is loaded, and it stays or ends at once.
-/

namespace Dossh

open Chain (Leads)

/-- DOS has room for a copy of DOSSHD. -/
structure Pc.Runs (pc : Pc) (m : Machine) (e : Exec) : Prop where
  env : ∀ b ∈ e.envBlocks, pc.Room m b
  psp : pc.Room (m.run (e.envBlocks.map .alloc)) ⟨e.psp, e.paras, .dosshd none⟩

/-- Another resident program takes a vector. -/
def Tsr.hook (t : Tsr) (v : Vec) : List DosCall :=
  match t.hooks v with
  | some p => [.setvect v p]
  | none => []

/-- Another resident program puts a vector back. -/
def Tsr.unhook (t : Tsr) (v : Vec) : List DosCall :=
  match t.hooks v with
  | some _ => [.setvect v (t.old v)]
  | none => []

/-- The programs that can run, with the calls they make.  Another resident program found the vectors
as they are, and goes when the vectors it took are its own. -/
inductive Pc.Step (pc : Pc) (m : Machine) : List DosCall → Prop where
  | start (s : Start) (hruns : pc.Runs m s.toExec) :
      Step pc m (s.load ++ (dosshdMain pc (m.run s.load) s).2)
  | stop (e : Exec) (hruns : pc.Runs m e) :
      Step pc m (e.load ++ ((uninstall pc (m.run e.load)).2 ++ e.exit))
  | load (b : Block) (t : Tsr) (hprog : b.program = .tsr t) (hroom : pc.Room m b)
      (hold : t.old = m.ivt) : Step pc m (.alloc b :: (t.hook .tick ++ t.hook .mpx))
  | unload (b : Block) (t : Tsr) (hb : b ∈ m.blocks) (hprog : b.program = .tsr t)
      (htop : ∀ v p, t.hooks v = some p → m.ivt v = p) :
      Step pc m (t.unhook .tick ++ (t.unhook .mpx ++ [.freemem b.psp]))
  | driver (int : Nat) (hnone : m.drv int = none) : Step pc m [.driver int (some [])]
  | driverGone (int : Nat) (hidle : m.drv int = some []) : Step pc m [.driver int none]

/-- What commands lead to, from a machine without resident programs. -/
inductive Pc.Reach (pc : Pc) : Machine → Prop where
  | boot : Reach pc ⟨pc.base, fun _ => none, []⟩
  | step {m : Machine} {calls : List DosCall} (h : Reach pc m) (hstep : pc.Step m calls) :
      Reach pc (m.run calls)

/-- What holds between the commands. -/
structure Pc.Settled (pc : Pc) (m : Machine) (ch : Vec → List FarPtr) : Prop
    extends pc.Safe m ch where
  all : ∀ b ∈ m.blocks, ∀ v p, b.handler pc v = some p → p ∈ ch v
  stay : ∀ b ∈ m.blocks, b.program ≠ .dosshd none ∧ b.program ≠ .data
  psp : ∀ b ∈ m.blocks, ∀ st, b.program = .dosshd (some st) → st.psp = b.psp
  handle : ∀ int hs, m.drv int = some hs → ∀ h ∈ hs, ∀ b ∈ m.blocks, ∀ st,
    b.program = .dosshd (some st) → st.mode = true ∧ st.pktInt = int ∧ st.pktHandle = h.1

section

variable {pc : Pc} {m : Machine} {ch : Vec → List FarPtr} {b : Block} {v : Vec} {p : FarPtr}
  {e : Exec}

theorem Machine.run_append (m : Machine) (calls calls' : List DosCall) :
    m.run (calls ++ calls') = (m.run calls).run calls' := List.foldl_append

theorem Machine.through_append {P : Machine → Prop} {calls calls' : List DosCall} :
    m.Through P (calls ++ calls') ↔ m.Through P calls ∧ (m.run calls).Through P calls' := by
  induction calls generalizing m with
  | nil =>
      rw [List.nil_append, through_nil]
      exact ⟨fun h => ⟨h [] List.nil_prefix, h⟩, fun h => h.2⟩
  | cons c calls ih =>
      rw [List.cons_append, through_cons, through_cons, ih, and_assoc]
      rfl

theorem Machine.setvect_of_ne {v' : Vec} (h : v' ≠ v) : (m.call (.setvect v p)).ivt v' = m.ivt v' :=
  Function.update_of_ne h _ _

/-! ## DOSSHD is loaded -/

/-- Safe for some chains. -/
def Pc.Alright (pc : Pc) (m : Machine) : Prop := ∃ ch, pc.Safe m ch

theorem Pc.Room.ne (h : pc.Room m b) (hlaid : pc.Laid m.blocks) :
    ∀ b' ∈ m.blocks, b'.psp ≠ b.psp := by
  intro b' hb' heq
  have hapart := h.apart b' hb'
  have hpos := h.proper.pos
  have hpos' := (hlaid.proper b' hb').pos
  simp only [Block.Apart] at hapart
  omega

theorem filter_fresh {blocks : List Block} {psp : Nat} (h : ∀ b ∈ blocks, b.psp ≠ psp) :
    (blocks.filter fun b => b.psp ≠ psp) = blocks :=
  List.filter_eq_self.mpr fun b hb => decide_eq_true (h b hb)

/-- There is one block at most, and data in it. -/
theorem Exec.envBlocks_cases (e : Exec) :
    e.envBlocks = [] ∨ ∃ b, e.envBlocks = [b] ∧ b.program = .data := by
  unfold Exec.envBlocks
  cases e.env with
  | none => exact .inl rfl
  | some env => exact .inr ⟨_, rfl, rfl⟩

theorem Exec.envBlocks_data (hb : b ∈ e.envBlocks) : b.program = .data := by
  rcases e.envBlocks_cases with hnone | ⟨b', hone, hdata⟩
  · rw [hnone] at hb
    cases hb
  · rw [hone, List.mem_singleton] at hb
    rw [hb, hdata]

namespace Pc.Runs

theorem run_env (m : Machine) (e : Exec) :
    m.run (e.envBlocks.map .alloc) = { m with blocks := e.envBlocks ++ m.blocks } := by
  rcases e.envBlocks_cases with hnone | ⟨b, hone, -⟩
  · rw [hnone]
    rfl
  · rw [hone]
    rfl

theorem run_load (m : Machine) (e : Exec) : m.run e.load =
    { m with blocks := ⟨e.psp, e.paras, .dosshd none⟩ :: (e.envBlocks ++ m.blocks) } := by
  rw [Exec.load, Machine.run_append, run_env]
  rfl

theorem load_blocks (e : Exec) : (m.run e.load).blocks =
    ⟨e.psp, e.paras, .dosshd none⟩ :: (e.envBlocks ++ m.blocks) := by
  rw [run_load]

theorem self_mem_load (e : Exec) :
    (⟨e.psp, e.paras, .dosshd none⟩ : Block) ∈ (m.run e.load).blocks := by
  rw [load_blocks]
  exact List.mem_cons_self

theorem load_ivt (e : Exec) : (m.run e.load).ivt = m.ivt := by
  rw [run_load]

theorem load_drv (e : Exec) : (m.run e.load).drv = m.drv := by
  rw [run_load]

/-- The copy that was loaded is not resident. -/
theorem of_load {st : ResidentState} (hb : b ∈ (m.run e.load).blocks)
    (hprog : b.program = .dosshd (some st)) : b ∈ m.blocks := by
  rw [load_blocks] at hb
  rcases List.mem_cons.mp hb with rfl | hb
  · cases hprog
  · rcases List.mem_append.mp hb with hb | hb
    · rw [Exec.envBlocks_data hb] at hprog
      cases hprog
    · exact hb

theorem mem_load (hb : b ∈ m.blocks) : b ∈ (m.run e.load).blocks := by
  rw [load_blocks]
  exact List.mem_cons_of_mem _ (List.mem_append_right _ hb)

theorem ne_env (h : pc.Runs m e) (hlaid : pc.Laid m.blocks) {env : Block}
    (henv : env ∈ e.envBlocks) : ∀ b ∈ m.blocks, b.psp ≠ env.psp := (h.env env henv).ne hlaid

theorem laid_env (h : pc.Runs m e) (hlaid : pc.Laid m.blocks) :
    pc.Laid (e.envBlocks ++ m.blocks) := by
  rcases e.envBlocks_cases with hnone | ⟨b, hone, -⟩
  · rw [hnone]
    exact hlaid
  · have hroom := h.env b (by rw [hone]; exact List.mem_cons_self)
    rw [hone]
    exact hlaid.alloc hroom.proper hroom.apart

/-- The program is behind everything else. -/
theorem apart_psp (h : pc.Runs m e) (hlaid : pc.Laid m.blocks) :
    ∀ b ∈ e.envBlocks ++ m.blocks, b.psp ≠ e.psp := by
  have hroom := h.psp
  rw [run_env] at hroom
  exact hroom.ne (h.laid_env hlaid)

theorem ne_psp (h : pc.Runs m e) (hlaid : pc.Laid m.blocks) : ∀ b ∈ m.blocks, b.psp ≠ e.psp :=
  fun b hb => h.apart_psp hlaid b (List.mem_append_right _ hb)

theorem env_ne_psp (h : pc.Runs m e) (hlaid : pc.Laid m.blocks) :
    ∀ b ∈ e.envBlocks, b.psp ≠ e.psp :=
  fun b hb => h.apart_psp hlaid b (List.mem_append_left _ hb)

/-- The environment goes. -/
theorem run_freeEnv (h : pc.Runs m e) (hlaid : pc.Laid m.blocks) {m' : Machine} {prog : Program}
    {blocks : List Block} (hsub : ∀ b ∈ blocks, b ∈ m.blocks)
    (hblocks : m'.blocks = ⟨e.psp, e.paras, prog⟩ :: (e.envBlocks ++ blocks)) :
    m'.run e.freeEnv = { m' with blocks := ⟨e.psp, e.paras, prog⟩ :: blocks } := by
  rcases e.envBlocks_cases with hnone | ⟨b, hone, -⟩
  · rw [hnone, List.nil_append] at hblocks
    rw [Exec.freeEnv, hnone, ← hblocks]
    rfl
  · have hmem : b ∈ e.envBlocks := by
      rw [hone]
      exact List.mem_cons_self
    have hrun : m'.run e.freeEnv =
        ⟨m'.ivt, m'.drv, m'.blocks.filter fun b' => b'.psp ≠ b.psp⟩ := by
      rw [Exec.freeEnv, hone]
      rfl
    rw [hrun, hblocks, hone, List.singleton_append, List.filter_cons,
      if_pos (decide_eq_true (h.env_ne_psp hlaid b hmem).symm), List.filter_cons, if_neg (by simp),
      filter_fresh fun b' hb' => h.ne_env hlaid hmem b' (hsub b' hb')]

/-- Freeing the environment is safe. -/
theorem through_freeEnv {m' : Machine} (h : pc.Safe m' ch)
    (hmem : ∀ b ∈ e.envBlocks, b ∈ m'.blocks) :
    m'.Through pc.Alright e.freeEnv ∧ pc.Safe (m'.run e.freeEnv) ch := by
  unfold Exec.freeEnv
  rcases e.envBlocks_cases with hnone | ⟨b, hone, hdata⟩
  · rw [hnone]
    exact ⟨Machine.through_nil.mpr ⟨ch, h⟩, h⟩
  · have hfree := h.freeData (hmem b (by rw [hone]; exact List.mem_cons_self)) hdata
    rw [hone]
    exact ⟨Machine.through_cons.mpr ⟨⟨ch, h⟩, Machine.through_nil.mpr ⟨ch, hfree⟩⟩, hfree⟩

theorem free_psp (h : pc.Runs m e) (hlaid : pc.Laid m.blocks) (prog : Program) {blocks : List Block}
    (hsub : ∀ b ∈ blocks, b ∈ m.blocks) :
    ((⟨e.psp, e.paras, prog⟩ :: blocks : List Block).filter fun b => b.psp ≠ e.psp) = blocks := by
  rw [List.filter_cons, if_neg (by simp), filter_fresh fun b hb => h.ne_psp hlaid b (hsub b hb)]

/-- What was loaded goes, and nothing else changes. -/
theorem run_exit (h : pc.Runs m e) (hlaid : pc.Laid m.blocks) {m' : Machine} {blocks : List Block}
    (hsub : ∀ b ∈ blocks, b ∈ m.blocks)
    (hblocks : m'.blocks = ⟨e.psp, e.paras, .dosshd none⟩ :: (e.envBlocks ++ blocks)) :
    m'.run e.exit = { m' with blocks := blocks } := by
  rw [Exec.exit, Machine.run_append, h.run_freeEnv hlaid hsub hblocks]
  show Machine.mk m'.ivt m'.drv (List.filter _ _) = _
  rw [h.free_psp hlaid _ hsub]

/-- What ends at once leaves the machine as it was. -/
theorem run_load_exit (h : pc.Runs m e) (hlaid : pc.Laid m.blocks) :
    (m.run e.load).run e.exit = m := by
  rw [h.run_exit hlaid (fun _ hb => hb) (load_blocks e), run_load]

/-- Loading is safe. -/
theorem through_load (hruns : pc.Runs m e) (h : pc.Safe m ch) :
    m.Through pc.Alright e.load ∧ pc.Safe (m.run e.load) ch := by
  have henv : m.Through pc.Alright (e.envBlocks.map .alloc) ∧
      pc.Safe (m.run (e.envBlocks.map .alloc)) ch := by
    rcases e.envBlocks_cases with hnone | ⟨b, hone, hdata⟩
    · rw [hnone]
      exact ⟨Machine.through_nil.mpr ⟨ch, h⟩, h⟩
    · have hnew : ¬ b.Resident := by
        rintro ⟨st, hst⟩
        rw [hdata] at hst
        cases hst
      have halloc := h.alloc (hruns.env b (by rw [hone]; exact List.mem_cons_self)) hnew
      rw [hone]
      exact ⟨Machine.through_cons.mpr ⟨⟨ch, h⟩, Machine.through_nil.mpr ⟨ch, halloc⟩⟩, halloc⟩
  have hcopy : ¬ Block.Resident ⟨e.psp, e.paras, .dosshd none⟩ := by
    rintro ⟨st, hst⟩
    cases hst
  have hpsp := henv.2.alloc hruns.psp hcopy
  rw [Exec.load, Machine.through_append, Machine.run_append, Machine.through_cons,
    Machine.through_nil]
  exact ⟨⟨henv.1, ⟨ch, henv.2⟩, ch, hpsp⟩, hpsp⟩

/-- The program ends. -/
theorem through_exit (hruns : pc.Runs m e) (hlaid : pc.Laid m.blocks) {m' : Machine}
    {blocks : List Block} (hsub : ∀ b ∈ blocks, b ∈ m.blocks)
    (hblocks : m'.blocks = ⟨e.psp, e.paras, .dosshd none⟩ :: (e.envBlocks ++ blocks))
    (h : pc.Safe m' ch)
    (hrcv : ∀ int hs, m'.drv int = some hs → ∀ h ∈ hs, h.2 ≠ pc.image.receiver.loaded e.psp) :
    m'.Through pc.Alright e.exit ∧ pc.Safe (m'.run e.exit) ch := by
  have hmem : ∀ b ∈ e.envBlocks, b ∈ m'.blocks := by
    intro b hb
    rw [hblocks]
    exact List.mem_cons_of_mem _ (List.mem_append_left _ hb)
  obtain ⟨henv, hfreed⟩ := through_freeEnv h hmem
  have hrun := hruns.run_freeEnv hlaid hsub hblocks
  have hcopy : (⟨e.psp, e.paras, .dosshd none⟩ : Block) ∈ (m'.run e.freeEnv).blocks := by
    rw [hrun]
    exact List.mem_cons_self
  have hpsp := hfreed.freeCopy hcopy rfl (by rw [hrun]; exact hrcv)
  rw [Exec.exit, Machine.through_append, Machine.run_append, Machine.through_cons,
    Machine.through_nil]
  exact ⟨⟨henv, ⟨ch, hfreed⟩, ch, hpsp⟩, hpsp⟩

/-- A program that was just loaded has no receiver. -/
theorem no_receiver (hruns : pc.Runs m e) (h : pc.Safe m ch) : ∀ int hs,
    (m.run e.load).drv int = some hs → ∀ h ∈ hs, h.2 ≠ pc.image.receiver.loaded e.psp := by
  intro int hs hhs hd hhd heq
  rw [load_drv] at hhs
  obtain ⟨b, hb, -, hrcv⟩ := h.receivers int hs hhs hd hhd
  rw [hrcv] at heq
  simp only [FarPtr.loaded, FarPtr.mk.injEq] at heq
  exact hruns.ne_psp h.laid b hb (by omega)

end Pc.Runs

/-! ## DOSSHD stays -/

/-- Loading does not change the vectors that `install` finds. -/
theorem Start.stay_load (s : Start) (m : Machine) (int handle : Nat) :
    s.stay pc (m.run s.load) int handle = s.stay pc m int handle := by
  unfold Start.stay Start.state
  rw [Pc.Runs.load_ivt]

/-- The block of a DOSSHD that stays. -/
def Start.resident (s : Start) (m : Machine) (int handle : Nat) : Block :=
  ⟨s.psp, s.paras, .dosshd (some (s.state m int handle))⟩

/-- The machine when DOSSHD stays. -/
def Machine.staying (pc : Pc) (m : Machine) (s : Start) (int handle : Nat)
    (drv : Nat → Option (List (Nat × FarPtr))) : Machine where
  ivt v := (pc.image.isr v).loaded s.psp
  drv := drv
  blocks := s.resident m int handle :: m.blocks

namespace Pc.Settled

/-- Without a DOSSHD the drivers have no handles. -/
theorem no_handles (h : pc.Settled m ch) (hnone : ∀ b ∈ m.blocks, ¬ b.Resident) :
    ∀ int hs, m.drv int = some hs → hs = [] := by
  intro int hs hhs
  cases hs with
  | nil => rfl
  | cons hd hs =>
      obtain ⟨b, hb, ⟨st, hst⟩, -⟩ := h.receivers int _ hhs hd List.mem_cons_self
      cases st with
      | none => exact absurd hst (h.stay b hb).1
      | some st => exact absurd ⟨st, hst⟩ (hnone b hb)

/-- When `find_resident` finds nothing, DOSSHD is not resident. -/
theorem not_resident (h : pc.Settled m ch) {e : Exec} (hruns : pc.Runs m e)
    (hfound : findResident pc (m.run e.load) = .absent) : ∀ b ∈ m.blocks, ¬ b.Resident := by
  rintro b hb ⟨st, hst⟩
  have hat : b.handler pc .mpx = some ((pc.image.isr .mpx).loaded b.psp) :=
    Block.handler_resident hst .mpx
  have hmem : b ∈ (m.run e.load).blocks := Pc.Runs.mem_load hb
  refine (hruns.through_load h.toSafe).2.absent hfound _ (h.all b hb _ _ hat) b hmem hat ?_
  simp [Block.Answers, hst]

end Pc.Settled

/-- The calls with which DOSSHD stays, from the machine in which it asked the driver. -/
theorem through_stay {s : Start} {m₁ : Machine} (hruns : pc.Runs m s.toExec)
    (hlaid : pc.Laid m.blocks) (hblocks : m₁.blocks = (m.run s.load).blocks) (hivt : m₁.ivt = m.ivt) (h : pc.Safe m₁ ch)
    (hnone : ∀ b ∈ m.blocks, ¬ b.Resident) (int handle : Nat) :
    m₁.Through pc.Alright (s.stay pc m int handle) ∧
      m₁.run (s.stay pc m int handle) = m.staying pc s int handle m₁.drv ∧
      pc.Safe (m.staying pc s int handle m₁.drv)
        fun v => (pc.image.isr v).loaded s.psp :: ch v := by
  have hcopy : (⟨s.psp, s.paras, .dosshd none⟩ : Block) ∈ m₁.blocks := by
    rw [hblocks]
    exact Pc.Runs.self_mem_load s.toExec
  have hnone₁ : ∀ b ∈ m₁.blocks, ¬ b.Resident := by
    rw [hblocks]
    rintro b hb ⟨st, hst⟩
    exact hnone b (Pc.Runs.of_load hb hst) ⟨st, hst⟩
  have hstore := h.store hcopy rfl hnone₁ (s.state m int handle)
  -- the block as it is filled in, in front of the environment
  have hfilled : (m₁.call (.store s.psp (s.state m int handle))).blocks =
      s.resident m int handle :: (s.envBlocks ++ m.blocks) := by
    have hsame : ((s.envBlocks ++ m.blocks).map fun b =>
        if b.psp = s.psp then { b with program := .dosshd (some (s.state m int handle)) } else b) =
        s.envBlocks ++ m.blocks := by
      conv_rhs => rw [← List.map_id (s.envBlocks ++ m.blocks)]
      exact List.map_congr_left fun b hb => if_neg (hruns.apart_psp hlaid b hb)
    show m₁.blocks.map _ = _
    rw [hblocks, Pc.Runs.load_blocks, List.map_cons, if_pos rfl, hsame]
    rfl
  generalize hm₂ : m₁.call (.store s.psp (s.state m int handle)) = m₂ at hstore hfilled
  have hdrv₂ : m₂.drv = m₁.drv := by rw [← hm₂]; rfl
  have hivt₂ : m₂.ivt = m.ivt := by rw [← hm₂, ← hivt]; rfl
  have hres : s.resident m int handle ∈ m₂.blocks := by
    rw [hfilled]
    exact List.mem_cons_self
  have hmpx := hstore.hook (v := .mpx) hres rfl (congrArg some (congrFun hivt₂.symm .mpx))
  have hold : (m₂.call (.setvect .mpx ((pc.image.isr .mpx).loaded s.psp))).ivt .tick =
      m.ivt .tick := by
    have hne : Vec.tick ≠ Vec.mpx := by decide
    exact (Machine.setvect_of_ne hne).trans (congrFun hivt₂ .tick)
  have htick := hmpx.hook (v := .tick) hres rfl (congrArg some hold.symm)
  have hmem : ∀ b ∈ s.envBlocks, b ∈ m₂.blocks := by
    intro b hb
    rw [hfilled]
    exact List.mem_cons_of_mem _ (List.mem_append_left _ hb)
  obtain ⟨henv, hfree⟩ := Pc.Runs.through_freeEnv htick hmem
  have hchain : (Function.update
      (Function.update ch .mpx ((pc.image.isr .mpx).loaded s.psp :: ch .mpx)) .tick ((pc.image.isr .tick).loaded s.psp :: ch .tick) : Vec → List FarPtr) =
      fun v => (pc.image.isr v).loaded s.psp :: ch v := by
    funext v
    cases v <;> rfl
  have hrun : m₁.run (s.stay pc m int handle) =
      ((m₂.call (.setvect .mpx ((pc.image.isr .mpx).loaded s.psp))).call
        (.setvect .tick ((pc.image.isr .tick).loaded s.psp))).run s.freeEnv := by
    rw [← hm₂]
    rfl
  have hend : m₁.run (s.stay pc m int handle) = m.staying pc s int handle m₁.drv := by
    have hivts : (Function.update (Function.update m₂.ivt .mpx ((pc.image.isr .mpx).loaded s.psp))
        .tick ((pc.image.isr .tick).loaded s.psp) : Vec → FarPtr) =
        fun v => (pc.image.isr v).loaded s.psp := by
      funext v
      cases v <;> rfl
    have hblocks₃ : ((m₂.call (.setvect .mpx ((pc.image.isr .mpx).loaded s.psp))).call
        (.setvect .tick ((pc.image.isr .tick).loaded s.psp))).blocks =
        ⟨s.psp, s.paras, .dosshd (some (s.state m int handle))⟩ :: (s.envBlocks ++ m.blocks) :=
      hfilled
    rw [hrun, hruns.run_freeEnv hlaid (fun _ hb => hb) hblocks₃]
    simp only [Machine.call, Machine.staying]
    rw [hivts, hdrv₂]
    rfl
  refine ⟨?_, hend, ?_⟩
  · rw [Start.stay]
    simp only [List.cons_append, List.nil_append, Machine.through_cons, hm₂]
    exact ⟨⟨ch, h⟩, ⟨ch, hstore⟩, ⟨_, hmpx⟩, henv⟩
  · rw [← hend, hrun, ← hchain]
    exact hfree

/-- After `access_type` of a driver without handles. -/
theorem Machine.handles_access {rcv : FarPtr} {int int' handle : Nat}
    (hidle : m.drv int = some []) {hs : List (Nat × FarPtr)} {hd : Nat × FarPtr}
    (hhs : (m.call (.accessType int handle rcv)).drv int' = some hs) (hhd : hd ∈ hs) :
    (int' = int ∧ hd = (handle, rcv)) ∨ m.drv int' = some hs := by
  change Function.update m.drv int ((m.drv int).map _) int' = some hs at hhs
  by_cases hint : int' = int
  · subst hint
    rw [Function.update_self, hidle, Option.map_some, Option.some.injEq] at hhs
    subst hhs
    exact .inl ⟨rfl, List.mem_singleton.mp hhd⟩
  · rw [Function.update_of_ne hint] at hhs
    exact .inr hhs

/-- `pkt_access` of the copy that was loaded. -/
theorem Pc.Safe.access (h : pc.Safe (m.run e.load) ch) {int : Nat} (hidle : m.drv int = some [])
    (handle : Nat) : pc.Safe ((m.run e.load).call
      (.accessType int handle (pc.image.receiver.loaded e.psp))) ch := by
  rw [← Pc.Runs.load_drv e] at hidle
  refine h.drivers fun int' hs hhs hd hhd => ?_
  rcases Machine.handles_access hidle hhs hhd with ⟨-, rfl⟩ | hhs
  · exact ⟨_, Pc.Runs.self_mem_load e, ⟨none, rfl⟩, rfl⟩
  · exact h.receivers int' hs hhs hd hhd

/-- The calls are safe, and lead to a machine between commands. -/
def Pc.Goes (pc : Pc) (m : Machine) (calls : List DosCall) : Prop :=
  m.Through pc.Alright calls ∧ ∃ ch, pc.Settled (m.run calls) ch

namespace Pc.Settled

/-- What was loaded ends at once. -/
theorem exits (h : pc.Settled m ch) (hruns : pc.Runs m e) : pc.Goes (m.run e.load) e.exit := by
  have hsafe := (hruns.through_load h.toSafe).2
  have hback := hruns.run_load_exit h.laid
  have hexit := hruns.through_exit h.laid (fun _ hb => hb) (Pc.Runs.load_blocks e) hsafe
    (hruns.no_receiver h.toSafe)
  exact ⟨hexit.1, ch, by rw [hback]; exact h⟩

/-- DOSSHD stays once its transport is open. -/
theorem stays (h : pc.Settled m ch) {s : Start} (hruns : pc.Runs m s.toExec) {int handle : Nat}
    {m₁ : Machine} (hblocks : m₁.blocks = (m.run s.load).blocks) (hivt : m₁.ivt = m.ivt)
    (hsafe : pc.Safe m₁ ch) (hnone : ∀ b ∈ m.blocks, ¬ b.Resident)
    (hdrv : ∀ int' hs, m₁.drv int' = some hs → ∀ h ∈ hs, s.net = true ∧ int = int' ∧ handle = h.1) :
    pc.Goes m₁ (s.stay pc m int handle) := by
  obtain ⟨hthrough, hend, hstaying⟩ := through_stay hruns h.laid hblocks hivt hsafe hnone int handle
  refine ⟨hthrough, fun v => (pc.image.isr v).loaded s.psp :: ch v, ?_⟩
  rw [hend]
  refine ⟨hstaying, fun b hb v p hat => ?_, fun b hb => ?_, fun b hb st hst => ?_,
    fun int' hs hhs hd hhd b hb st hst => ?_⟩
  all_goals rcases List.mem_cons.mp hb with rfl | hb
  · cases hat
    exact List.mem_cons_self
  · exact List.mem_cons_of_mem _ (h.all b hb v p hat)
  · exact ⟨by simp [Start.resident], by simp [Start.resident]⟩
  · exact h.stay b hb
  · cases hst
    rfl
  · exact h.psp b hb st hst
  · cases hst
    exact hdrv int' hs hhs hd hhd
  · exact absurd ⟨st, hst⟩ (hnone b hb)

/-- The driver that `pkt_find` finds has no handles. -/
theorem idle_driver (h : pc.Settled m ch) (hnone : ∀ b ∈ m.blocks, ¬ b.Resident) {int : Nat}
    (hfind : pktFind (m.run e.load) = some int) : m.drv int = some [] := by
  unfold pktFind at hfind
  have hsome := List.find?_some hfind
  rw [Pc.Runs.load_drv] at hsome
  obtain ⟨hs, hhs⟩ := Option.isSome_iff_exists.mp hsome
  rw [hhs, h.no_handles hnone int hs hhs]

/-- `install` without a resident DOSSHD. -/
theorem installs (h : pc.Settled m ch) {s : Start} (hruns : pc.Runs m s.toExec)
    (hnone : ∀ b ∈ m.blocks, ¬ b.Resident) :
    pc.Goes (m.run s.load) (install pc (m.run s.load) s).2 := by
  have hsafe := (hruns.through_load h.toSafe).2
  have hempty := h.no_handles hnone
  unfold install
  split
  next hnet =>
    split
    next int handle hfind hgrant =>
      have hidle := h.idle_driver hnone hfind
      have haccess := hsafe.access hidle handle
      rw [s.stay_load]
      have hgoes : pc.Goes ((m.run s.load).call (.accessType int handle
          (pc.image.receiver.loaded s.psp))) (s.stay pc m int handle) := by
        have hblocks : ((m.run s.load).call (.accessType int handle
            (pc.image.receiver.loaded s.psp))).blocks = (m.run s.load).blocks := rfl
        have hidle₁ : (m.run s.load).drv int = some [] := by
          rw [Pc.Runs.load_drv, hidle]
        refine h.stays hruns hblocks (Pc.Runs.load_ivt _) haccess hnone
          fun int' hs hhs hd hhd => ?_
        rcases Machine.handles_access hidle₁ hhs hhd with ⟨rfl, rfl⟩ | hhs
        · exact ⟨hnet, rfl, rfl⟩
        · rw [Pc.Runs.load_drv] at hhs
          rw [hempty int' hs hhs] at hhd
          cases hhd
      exact ⟨Machine.through_cons.mpr ⟨⟨ch, hsafe⟩, hgoes.1⟩, hgoes.2⟩
    next => exact h.exits hruns
  next hserial =>
    rw [s.stay_load]
    refine h.stays hruns rfl (Pc.Runs.load_ivt _) hsafe hnone fun int' hs hhs hd hhd => ?_
    rw [Pc.Runs.load_drv] at hhs
    rw [hempty int' hs hhs] at hhd
    cases hhd

/-- DOSSHD is started, and stays or not. -/
theorem start (h : pc.Settled m ch) {s : Start} (hruns : pc.Runs m s.toExec) :
    pc.Goes (m.run s.load) (dosshdMain pc (m.run s.load) s).2 := by
  unfold dosshdMain
  split
  next => exact h.exits hruns
  next => exact h.exits hruns
  next hfound => exact h.installs hruns (h.not_resident hruns hfound)

end Pc.Settled

end

end Dossh
