import Dossh.Keys

/-!
# Control sequences

A control sequence of ECMA-48 is `ESC [`, parameter bytes, intermediate bytes and a final byte.
`ansikey.c` collects digits and semicolons only, ten of them, and takes any other byte for the
final one.
-/

namespace Dossh

variable {C : Type*}

/-- A digit or a semicolon, the bytes that `ansi_key_byte` collects. -/
abbrev Collected (b : UInt8) : Prop := (0x30 ≤ b ∧ b ≤ 0x39) ∨ b = 0x3B

/-- Text as a terminal sends it. -/
inductive TextItem where
  | char (c : UInt8) (h : 32 ≤ c ∧ c ≤ 126)
  | csi (params inter : List UInt8) (final : UInt8) (hparams : ∀ b ∈ params, 0x30 ≤ b ∧ b ≤ 0x3F)
      (hinter : ∀ b ∈ inter, 0x20 ≤ b ∧ b ≤ 0x2F) (hfinal : 0x40 ≤ final ∧ final ≤ 0x7E)

/-- The bytes of an item. -/
def TextItem.bytes : TextItem → List UInt8
  | char c _ => [c]
  | csi params inter final _ _ _ => 0x1B :: 0x5B :: (params ++ (inter ++ [final]))

/-- The number that the first digits of `ds` continue from `v` on. -/
def decimal : List UInt8 → Nat → Nat
  | [], v => v
  | d :: ds, v => if 0x30 ≤ d ∧ d ≤ 0x39 then decimal ds (v * 10 + (d.toNat - 0x30)) else v

/-- The first parameter. -/
def firstParam (params : List UInt8) : Nat := decimal params 0

/-- Ten bytes of it in 16 bits. -/
def shortParam (params : List UInt8) : Nat := firstParam (params.take 10) % 65536

/-- The keystrokes an item may inject: a character its own, and a control sequence at most one
without a character, which for the final byte `~` is that of the first parameter. -/
def TextItem.Admits : TextItem → List KeyEvent → Prop
  | char c _, keys => keys = [.inject (usScan c) c]
  | csi params _ final _ _ _, keys =>
      keys = [] ∨ ∃ scan, scan ≠ 0 ∧ keys = [.inject scan 0] ∧
        (final = 0x7E → csiTilde (firstParam params) = scan)

/-- The control sequences that `ansi_key_byte` decodes: only digits and semicolons before the
final byte, and for `~` a first parameter that its 16 bits and ten bytes do not make another
key. -/
def TextItem.Simple : TextItem → Prop
  | char _ _ => True
  | csi params inter final _ _ _ =>
      (∀ b ∈ params, Collected b) ∧ inter = [] ∧
        (final = 0x7E → shortParam params = firstParam params ∨ csiTilde (shortParam params) = 0)

/-- The keystrokes of each chunk, oldest first. -/
def chunkKeys : AnsiKey → List (List (KeyStep C)) → List (List KeyEvent)
  | _, [] => []
  | k, steps :: chunks =>
      let k' := keyRun steps k
      (k'.log.take (k'.log.length - k.log.length)).reverse :: chunkKeys k' chunks

/-! ## Inside a sequence -/

/-- The state behind `ESC [` and some collected bytes. -/
structure AnsiKey.Collects (k : AnsiKey) (got : List UInt8) : Prop where
  pend : k.pend = 0x1B :: 0x5B :: got
  sentinel : k.rbState = 0
  swallow : k.swallow = false

theorem Collected.ne_sentinel {b : UInt8} (h : Collected b) : b ≠ 0x1E := by
  rintro rfl
  exact absurd h (by decide)

/-- One byte behind `ESC [`. -/
theorem AnsiKey.Collects.byte {k : AnsiKey} {got : List UInt8} (h : k.Collects got) {b : UInt8}
    (hb : b ≠ 0x1E) :
    ansiKeyByte k b =
      if Collected b then
        if got.length < 10 then { k with pend := 0x1B :: 0x5B :: (got ++ [b]), pendAge := 0 }
        else { k with pendAge := 0 }
      else { finishCsi { k with pendAge := 0 } b with pend := [] } := by
  obtain ⟨pend, age, swallow, state, log⟩ := k
  obtain ⟨hp, hs, hw⟩ := h
  dsimp only at hp hs hw
  subst hp hs hw
  rw [ansiKeyByte, ansiKeyHead_calm rfl hb Bool.noConfusion, ansiKeyRest]
  dsimp only
  rw [if_pos rfl]
  simp only [List.length_cons, List.cons_append]
  by_cases hc : Collected b
  · rw [if_pos hc, if_pos hc]
    by_cases hlen : got.length < 10
    · rw [if_pos hlen, if_pos (by omega)]
    · rw [if_neg hlen, if_neg (by omega)]
  · rw [if_neg hc, if_neg hc]

/-- The bytes collected: ten at most. -/
theorem AnsiKey.Collects.collected : ∀ {ds : List UInt8}, (∀ b ∈ ds, Collected b) →
    ∀ {k : AnsiKey} {got : List UInt8}, k.Collects got → got.length ≤ 10 →
      (ds.foldl ansiKeyByte k).Collects ((got ++ ds).take 10) ∧
        (ds.foldl ansiKeyByte k).log = k.log
  | [], _, k, got, h, hlen => by
      rw [List.append_nil, List.take_of_length_le hlen]
      exact ⟨h, rfl⟩
  | d :: ds, hds, k, got, h, hlen => by
      obtain ⟨hd, hds⟩ := List.forall_mem_cons.mp hds
      have hstep := h.byte hd.ne_sentinel
      rw [if_pos hd] at hstep
      rw [List.foldl_cons, hstep]
      by_cases hroom : got.length < 10
      · rw [if_pos hroom]
        have hnext : AnsiKey.Collects
            { k with pend := 0x1B :: 0x5B :: (got ++ [d]), pendAge := 0 } (got ++ [d]) :=
          ⟨rfl, h.sentinel, h.swallow⟩
        have hlen' : (got ++ [d]).length ≤ 10 := by
          rw [List.length_append, List.length_singleton]
          omega
        have hrun := AnsiKey.Collects.collected hds hnext hlen'
        rwa [List.append_assoc, List.singleton_append] at hrun
      · rw [if_neg hroom]
        have hnext : AnsiKey.Collects { k with pendAge := 0 } got := ⟨h.pend, h.sentinel, h.swallow⟩
        have hrun := AnsiKey.Collects.collected hds hnext hlen
        have hfull : got.length = 10 := by omega
        rw [← hfull, List.take_left] at hrun ⊢
        exact hrun

/-- The byte that ends the collection, and the key it stands for. -/
theorem AnsiKey.Collects.finish {k : AnsiKey} {got : List UInt8} (h : k.Collects got) {b : UInt8}
    (hb : b ≠ 0x1E) (hc : ¬ Collected b) {sc : UInt8}
    (hsc : sc = if b = 0x7E then csiTilde (csiNumber got 0) else csiFinal b) :
    (ansiKeyByte k b).Idle ∧
      (ansiKeyByte k b).log = if sc ≠ 0 then .inject sc 0 :: k.log else k.log := by
  rw [h.byte hb, if_neg hc]
  refine ⟨⟨rfl, (finishCsi_kept _ b).1.trans h.sentinel⟩, ?_⟩
  dsimp only
  rw [finishCsi]
  simp only [h.pend, List.drop_succ_cons, List.drop_zero]
  rw [← hsc]
  split <;> rfl

/-- The loop of `finish_csi` computes modulo `2 ^ 16`. -/
theorem csiNumber_eq : ∀ (ds : List UInt8) (v : Nat),
    csiNumber ds (v % 65536) = decimal ds v % 65536
  | [], _ => rfl
  | d :: ds, v => by
      rw [csiNumber, decimal]
      split
      · rw [← csiNumber_eq ds]
        congr 1
        omega
      · rfl

theorem AnsiKey.Idle.csi {k : AnsiKey} (h : k.Idle) :
    ([0x1B, 0x5B].foldl ansiKeyByte k).Collects [] ∧
      ([0x1B, 0x5B].foldl ansiKeyByte k).log = k.log := by
  have hesc : AnsiKey.rbState { k with swallow := false, pend := [0x1B], pendAge := 0 } = 0 :=
    h.sentinel
  rw [List.foldl_cons, List.foldl_cons, List.foldl_nil, h.esc, ansiKeyByte,
    ansiKeyHead_calm hesc (by decide) fun _ => by decide, ansiKeyRest]
  exact ⟨⟨rfl, h.sentinel, rfl⟩, rfl⟩

/-- A plain character. -/
abbrev Printable (c : UInt8) : Prop := 32 ≤ c ∧ c ≤ 126

/-- Characters are injected one by one. -/
theorem AnsiKey.Idle.chars : ∀ {cs : List UInt8}, (∀ c ∈ cs, Printable c) →
    ∀ {k : AnsiKey}, k.Idle →
      (cs.foldl ansiKeyByte k).Idle ∧
        (cs.foldl ansiKeyByte k).log =
          (cs.map fun c => KeyEvent.inject (usScan c) c).reverse ++ k.log
  | [], _, _, hk => ⟨hk, rfl⟩
  | c :: cs, hcs, k, hk => by
      obtain ⟨hc, hcs⟩ := List.forall_mem_cons.mp hcs
      obtain ⟨hidle, hlog⟩ := (printable_types c hc).foldl hk
      obtain ⟨hidle', hlog'⟩ := AnsiKey.Idle.chars hcs hidle
      refine ⟨hidle', hlog'.trans ?_⟩
      rw [hlog, List.map_cons, List.reverse_cons, List.append_assoc]
      rfl

theorem collected_or_split : ∀ bs : List UInt8, (∀ b ∈ bs, Collected b) ∨
    ∃ ds x rest, bs = ds ++ x :: rest ∧ (∀ b ∈ ds, Collected b) ∧ ¬ Collected x
  | [] => .inl nofun
  | b :: bs => by
      by_cases hb : Collected b
      · rcases collected_or_split bs with hall | ⟨ds, x, rest, rfl, hds, hx⟩
        · exact .inl (List.forall_mem_cons.mpr ⟨hb, hall⟩)
        · exact .inr ⟨b :: ds, x, rest, rfl, List.forall_mem_cons.mpr ⟨hb, hds⟩, hx⟩
      · exact .inr ⟨[], b, bs, rfl, nofun, hb⟩

/-- A sequence of digits and semicolons: what its final byte injects. -/
theorem AnsiKey.Idle.csi_plain {k : AnsiKey} (h : k.Idle) {params : List UInt8}
    (hparams : ∀ b ∈ params, Collected b) {x : UInt8} (hb : x ≠ 0x1E) (hx : ¬ Collected x)
    {sc : UInt8} (hsc : sc = if x = 0x7E then csiTilde (shortParam params) else csiFinal x) :
    ((0x1B :: 0x5B :: (params ++ [x])).foldl ansiKeyByte k).Idle ∧
      ((0x1B :: 0x5B :: (params ++ [x])).foldl ansiKeyByte k).log =
        (if sc ≠ 0 then [.inject sc 0] else []) ++ k.log := by
  have hsplit : 0x1B :: 0x5B :: (params ++ [x]) = [0x1B, 0x5B] ++ params ++ [x] := rfl
  rw [hsplit, List.foldl_append, List.foldl_append]
  obtain ⟨hcsi, hlog⟩ := h.csi
  obtain ⟨hgot, hlog'⟩ := AnsiKey.Collects.collected hparams hcsi (Nat.zero_le 10)
  have hnum : csiNumber (params.take 10) 0 = shortParam params :=
    csiNumber_eq (params.take 10) 0
  rw [List.nil_append] at hgot
  obtain ⟨hidle, hend⟩ := hgot.finish hb hx (hnum ▸ hsc)
  refine ⟨hidle, hend.trans ?_⟩
  rw [hlog', hlog]
  split <;> rfl

/-- A sequence with another byte before the final one: what follows that byte is typed. -/
theorem AnsiKey.Idle.csi_split {k : AnsiKey} (h : k.Idle) {params rest : List UInt8}
    (hparams : ∀ b ∈ params, Collected b) {x : UInt8} (hx : ¬ Collected x)
    (hb : 0x20 ≤ x ∧ x ≤ 0x3F) (hrest : ∀ c ∈ rest, Printable c) :
    ((0x1B :: 0x5B :: (params ++ x :: rest)).foldl ansiKeyByte k).Idle ∧
      ((0x1B :: 0x5B :: (params ++ x :: rest)).foldl ansiKeyByte k).log =
        (rest.map fun c => KeyEvent.inject (usScan c) c).reverse ++ k.log := by
  have htable : ∀ x : UInt8, 0x20 ≤ x ∧ x ≤ 0x3F → x ≠ 0x1E ∧ x ≠ 0x7E ∧ csiFinal x = 0 :=
    forall_byte (by decide +kernel)
  obtain ⟨hsent, htilde, hfinal⟩ := htable x hb
  have hsc : 0 = if x = 0x7E then csiTilde (shortParam params) else csiFinal x := by
    rw [if_neg htilde, hfinal]
  obtain ⟨hidle, hlog⟩ := h.csi_plain hparams hsent hx hsc
  have hsplit : 0x1B :: 0x5B :: (params ++ x :: rest) =
      (0x1B :: 0x5B :: (params ++ [x])) ++ rest := by
    simp
  rw [hsplit, List.foldl_append]
  obtain ⟨hidle', hlog'⟩ := hidle.chars hrest
  refine ⟨hidle', hlog'.trans ?_⟩
  rw [hlog]
  rfl

/-! ## Items -/

theorem csiTilde_injective {m n : Nat} (hm : csiTilde m ≠ 0) (h : csiTilde m = csiTilde n) :
    m = n := by
  have hlarge : ∀ v, 25 ≤ v → csiTilde v = 0 := by
    intro v hv
    unfold csiTilde
    split <;> first | omega | rfl
  have hsmall : ∀ v, csiTilde v ≠ 0 → v < 25 := fun v hv => by
    by_contra hno
    exact hv (hlarge v (by omega))
  have htable : ∀ m < 25, ∀ n < 25, csiTilde m ≠ 0 → csiTilde m = csiTilde n → m = n := by
    decide +kernel
  exact htable m (hsmall m hm) n (hsmall n (h ▸ hm)) hm h

/-- A decoded sequence injects at most its key. -/
theorem TextItem.csi_admits {params : List UInt8} {final : UInt8}
    (hparams : ∀ b ∈ params, 0x30 ≤ b ∧ b ≤ 0x3F) (hinter : ∀ b ∈ [], 0x20 ≤ b ∧ b ≤ 0x2F)
    (hfinal : 0x40 ≤ final ∧ final ≤ 0x7E) {sc : UInt8}
    (hsc : sc = if final = 0x7E then csiTilde (shortParam params) else csiFinal final) :
    (TextItem.csi params [] final hparams hinter hfinal).Admits
        (if sc ≠ 0 then [.inject sc 0] else []) ↔
      (final = 0x7E → shortParam params = firstParam params ∨ csiTilde (shortParam params) = 0) := by
  by_cases hzero : sc = 0
  · rw [if_neg (not_not_intro hzero)]
    refine iff_of_true (.inl rfl) fun htilde => .inr ?_
    rw [if_pos htilde] at hsc
    rw [← hsc, hzero]
  · rw [if_pos hzero]
    constructor
    · rintro (hnil | ⟨scan, -, hkeys, hkey⟩) htilde
      · cases hnil
      · obtain rfl : sc = scan := by simpa using hkeys
        rw [if_pos htilde] at hsc
        left
        exact csiTilde_injective (hsc ▸ hzero) (hsc.symm.trans (hkey htilde).symm)
    · intro h
      refine .inr ⟨sc, hzero, rfl, fun htilde => ?_⟩
      rw [if_pos htilde] at hsc
      rcases h htilde with heq | hno
      · rw [hsc, heq]
      · exact absurd (hsc.trans hno) hzero

/-- What is typed from inside a sequence ends with its final byte. -/
theorem TextItem.not_admits_typed {params inter : List UInt8} {final : UInt8}
    (hparams : ∀ b ∈ params, 0x30 ≤ b ∧ b ≤ 0x3F) (hinter : ∀ b ∈ inter, 0x20 ≤ b ∧ b ≤ 0x2F)
    (hfinal : 0x40 ≤ final ∧ final ≤ 0x7E) (rest : List UInt8) :
    ¬ (TextItem.csi params inter final hparams hinter hfinal).Admits
      ((rest ++ [final]).map fun c => KeyEvent.inject (usScan c) c) := by
  have hne : final ≠ 0 := by
    rintro rfl
    exact absurd hfinal (by decide)
  have hmem : KeyEvent.inject (usScan final) final ∈
      (rest ++ [final]).map fun c => KeyEvent.inject (usScan c) c := by simp
  rintro (hnil | ⟨scan, -, hkeys, -⟩)
  · rw [hnil] at hmem
    cases hmem
  · rw [hkeys, List.mem_singleton, KeyEvent.inject.injEq] at hmem
    exact hne hmem.2

/-- A byte of a parameter or of an intermediate. -/
theorem TextItem.inner {params inter : List UInt8} (hparams : ∀ b ∈ params, 0x30 ≤ b ∧ b ≤ 0x3F)
    (hinter : ∀ b ∈ inter, 0x20 ≤ b ∧ b ≤ 0x2F) :
    ∀ b ∈ params ++ inter, 0x20 ≤ b ∧ b ≤ 0x3F := by
  have hlow : ∀ b : UInt8, 0x30 ≤ b ∧ b ≤ 0x3F → 0x20 ≤ b ∧ b ≤ 0x3F :=
    forall_byte (by decide +kernel)
  have hhigh : ∀ b : UInt8, 0x20 ≤ b ∧ b ≤ 0x2F → 0x20 ≤ b ∧ b ≤ 0x3F :=
    forall_byte (by decide +kernel)
  intro b hb
  rcases List.mem_append.mp hb with hb | hb
  · exact hlow b (hparams b hb)
  · exact hhigh b (hinter b hb)

theorem printable_of_inner : ∀ b : UInt8, 0x20 ≤ b ∧ b ≤ 0x3F → Printable b :=
  forall_byte (by decide +kernel)

theorem printable_of_final : ∀ b : UInt8, 0x40 ≤ b ∧ b ≤ 0x7E →
    Printable b ∧ ¬ Collected b ∧ b ≠ 0x1E :=
  forall_byte (by decide +kernel)

/-- An intermediate byte is not collected. -/
theorem inter_eq_nil {inter : List UInt8} (hinter : ∀ b ∈ inter, 0x20 ≤ b ∧ b ≤ 0x2F)
    (h : ∀ b ∈ inter, Collected b) : inter = [] := by
  have htable : ∀ b : UInt8, 0x20 ≤ b ∧ b ≤ 0x2F → ¬ Collected b := forall_byte (by decide +kernel)
  cases inter with
  | nil => rfl
  | cons b inter =>
      have hb := List.mem_cons_self (a := b) (l := inter)
      exact absurd (h b hb) (htable b (hinter b hb))

/-- One item from a state at rest. -/
theorem TextItem.foldl (item : TextItem) {k : AnsiKey} (hk : k.Idle) :
    ∃ keys, (item.bytes.foldl ansiKeyByte k).Idle ∧
      (item.bytes.foldl ansiKeyByte k).log = keys ++ k.log ∧
      (item.Admits keys.reverse ↔ item.Simple) := by
  cases item with
  | char c h =>
      obtain ⟨hidle, hlog⟩ := (printable_types c h).foldl hk
      exact ⟨[.inject (usScan c) c], hidle, hlog, iff_of_true rfl trivial⟩
  | csi params inter final hparams hinter hfinal =>
      obtain ⟨hprint, hcol, hsent⟩ := printable_of_final final hfinal
      rcases collected_or_split (params ++ inter) with hall | ⟨ds, x, rest, hsplit, hds, hx⟩
      · -- digits and semicolons only
        rw [List.forall_mem_append] at hall
        obtain rfl := inter_eq_nil hinter hall.2
        obtain ⟨hidle, hlog⟩ := hk.csi_plain hall.1 hsent hcol rfl
        refine ⟨_, hidle, hlog, ?_⟩
        have hrev : ∀ sc : UInt8, (if sc ≠ 0 then [KeyEvent.inject sc 0] else []).reverse =
            if sc ≠ 0 then [KeyEvent.inject sc 0] else [] := fun sc => by split <;> rfl
        rw [hrev, TextItem.csi_admits hparams hinter hfinal rfl]
        exact ⟨fun h => ⟨hall.1, rfl, h⟩, fun h => h.2.2⟩
      · -- the sequence ends at `x` and the rest is typed
        have hinner := TextItem.inner hparams hinter
        rw [hsplit, List.forall_mem_append, List.forall_mem_cons] at hinner
        have hrest : ∀ c ∈ rest ++ [final], Printable c := by
          rw [List.forall_mem_append, List.forall_mem_singleton]
          exact ⟨fun c hc => printable_of_inner c (hinner.2.2 c hc), hprint⟩
        have hbytes : (TextItem.csi params inter final hparams hinter hfinal).bytes =
            0x1B :: 0x5B :: (ds ++ x :: (rest ++ [final])) := by
          rw [TextItem.bytes, ← List.append_assoc, hsplit, List.append_assoc, List.cons_append]
        rw [hbytes]
        obtain ⟨hidle, hlog⟩ := hk.csi_split hds hx hinner.2.1 hrest
        refine ⟨_, hidle, hlog, iff_of_false ?_ ?_⟩
        · rw [List.reverse_reverse]
          exact TextItem.not_admits_typed hparams hinter hfinal rest
        · rintro ⟨hcollected, rfl, -⟩
          rw [List.append_nil] at hsplit
          exact hx (hcollected x (by simp [hsplit]))

theorem TextItem.no_sentinel (item : TextItem) : 0x1E ∉ item.bytes := by
  have hchar : ∀ c : UInt8, Printable c → 0x1E ≠ c := forall_byte (by decide +kernel)
  cases item with
  | char c h => exact fun hmem => hchar c h (List.mem_singleton.mp hmem)
  | csi params inter final hparams hinter hfinal =>
      have hinner := TextItem.inner hparams hinter
      have hprint := (printable_of_final final hfinal).1
      intro hmem
      have hbody : 0x1E ∈ (params ++ inter) ++ [final] := by
        simpa [TextItem.bytes] using hmem
      rcases List.mem_append.mp hbody with hmem | hmem
      · exact hchar _ (printable_of_inner _ (hinner _ hmem)) rfl
      · exact hchar _ hprint (List.mem_singleton.mp hmem)

/-- **Control sequences stay out of the text.**  Over any text with ticks between its items, and
no two of them inside one, every item injects what it may exactly if every control sequence is
one that `ansi_key_byte` decodes. -/
theorem csi_never_typed {items : List TextItem} {chunks : List (List (KeyStep C))}
    (hsent : List.Forall₂ (fun item steps => ∃ m, Sends item.bytes m steps) items chunks)
    {k : AnsiKey} (hk : k.Idle) :
    List.Forall₂ TextItem.Admits items (chunkKeys k chunks) ↔ ∀ item ∈ items, item.Simple := by
  induction hsent generalizing k with
  | nil => exact iff_of_true .nil nofun
  | @cons item steps items chunks hsends hrest ih =>
      obtain ⟨m, hsends⟩ := hsends
      obtain ⟨keys, hidle, hlog, hiff⟩ := item.foldl hk
      have hface := hsends.run item.no_sentinel hk hidle
      have hlog' : (keyRun steps k).log = keys ++ k.log := by
        simp only [AnsiKey.face, Prod.mk.injEq] at hface
        rw [hface.2.2.2, hlog]
      have htake : (keyRun steps k).log.take ((keyRun steps k).log.length - k.log.length) =
          keys := by
        rw [hlog', List.length_append, Nat.add_sub_cancel, List.take_left]
      rw [chunkKeys, htake, List.forall₂_cons, ih (hidle.of_face hface), hiff,
        List.forall_mem_cons]

/-- A terminal's device attributes, `ESC [ ? 6 c`. -/
def attributes : TextItem :=
  .csi [0x3F, 0x36] [] 0x63 (forall_mem_of_all (by decide))
    (forall_mem_of_all (by decide)) (by decide)

def attributesChunk : List (KeyStep Unit) := attributes.bytes.map fun b => .byte () b

theorem paced_bytes (c : C) : ∀ {bytes : List UInt8}, bytes ≠ [] →
    KeyPaced bytes (bytes.map fun b => .byte c b)
  | [], h => absurd rfl h
  | [b], _ => .last c b
  | b :: b' :: bytes, _ => .next c b (paced_bytes c (List.cons_ne_nil b' bytes))

/-- The `6` and the `c` of a device attributes report are typed. -/
theorem attributes_typed :
    List.Forall₂ (fun item steps => ∃ m, Sends item.bytes m steps) [attributes]
        [attributesChunk] ∧
      chunkKeys AnsiKey.init [attributesChunk] =
        [[.inject 0x07 0x36, .inject 0x2E 0x63]] ∧
      ¬ List.Forall₂ TextItem.Admits [attributes]
        (chunkKeys AnsiKey.init [attributesChunk]) := by
  have hkeys : chunkKeys AnsiKey.init [attributesChunk] =
      [[.inject 0x07 0x36, .inject 0x2E 0x63]] := by decide +kernel
  refine ⟨.cons ⟨0, attributesChunk, paced_bytes () (by decide), rfl⟩ .nil, hkeys, ?_⟩
  rw [hkeys, List.forall₂_cons]
  rintro ⟨hnil | ⟨scan, -, hone, -⟩, -⟩
  · cases hnil
  · cases hone

/-- The cursor keys and a character are decoded. -/
theorem csi_never_typed_up :
    let items : List TextItem :=
      [.csi [] [] 0x41 nofun nofun (by decide), .char 0x61 (by decide)]
    let chunks : List (List (KeyStep Unit)) :=
      [[.byte () 0x1B, .byte () 0x5B, .tick, .byte () 0x41], [.byte () 0x61]]
    List.Forall₂ (fun item steps => ∃ m, Sends item.bytes m steps) items chunks ∧
      AnsiKey.init.Idle ∧
      (List.Forall₂ TextItem.Admits items (chunkKeys AnsiKey.init chunks) ↔
        ∀ item ∈ items, item.Simple) := by
  intro items chunks
  have hsent : List.Forall₂ (fun item steps => ∃ m, Sends (TextItem.bytes item) m steps)
      items chunks := by
    refine .cons ⟨0, _, .next () _ (.slow () _ (.last () _)), rfl⟩ ?_
    exact .cons ⟨0, _, .last () _, rfl⟩ .nil
  exact ⟨hsent, ⟨rfl, rfl⟩, csi_never_typed hsent ⟨rfl, rfl⟩⟩

end Dossh
