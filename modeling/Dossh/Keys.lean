import Dossh.Sentinel

/-!
# Key sequences

What a terminal sends for a key, and the keystroke that `ansikey.c` injects for it.  Ticks may come
between the bytes of a sequence as long as there is at most one between two of them: every byte of
a pending sequence resets its age.
-/

namespace Dossh

variable {C : Type*}

/-! ## Ticks inside a sequence -/

/-- All of the state but the age of the pending sequence. -/
abbrev AnsiKey.face (k : AnsiKey) : List UInt8 × Bool × Nat × List KeyEvent :=
  (k.pend, k.swallow, k.rbState, k.log)

theorem mapByte_age (k : AnsiKey) (a : Nat) (b : UInt8) :
    mapByte { k with pendAge := a } b = { mapByte k b with pendAge := a } := by
  unfold mapByte
  dsimp only
  repeat' split
  all_goals rfl

theorem ansiKeyRest_age {again : AnsiKey → UInt8 → AnsiKey} (k : AnsiKey) (a : Nat) (b : UInt8) :
    (ansiKeyRest again { k with pendAge := a } b).face = (ansiKeyRest again k b).face := by
  unfold ansiKeyRest
  dsimp only
  split
  · rw [mapByte_age]
    repeat' split
    all_goals rfl
  · rfl
  · rfl

/-- A byte does not look at the age. -/
theorem ansiKeyByte_age (k : AnsiKey) (a : Nat) (b : UInt8) :
    (ansiKeyByte { k with pendAge := a } b).face = (ansiKeyByte k b).face := by
  unfold ansiKeyByte ansiKeyHead
  dsimp only
  split
  · split <;> rfl
  · split
    · rfl
    · split
      · split
        · rfl
        · exact ansiKeyRest_age { k with rbState := 0, swallow := false } a b
      · exact ansiKeyRest_age { k with rbState := 0 } a b

theorem ansiKeyByte_face {k k' : AnsiKey} (h : k'.face = k.face) (b : UInt8) :
    (ansiKeyByte k' b).face = (ansiKeyByte k b).face := by
  have heq : k' = { k with pendAge := k'.pendAge } := by
    simp only [AnsiKey.face, Prod.mk.injEq] at h
    cases k
    cases k'
    simp_all
  rw [heq]
  exact ansiKeyByte_age k _ b

/-- A state with older events under its own. -/
abbrev AnsiKey.onto (k : AnsiKey) (past : List KeyEvent) : AnsiKey :=
  { k with log := k.log ++ past }

theorem mapByte_over (k : AnsiKey) (past : List KeyEvent) (b : UInt8) :
    mapByte (k.onto past) b = (mapByte k b).onto past := by
  unfold mapByte
  dsimp only
  repeat' split
  all_goals rfl

theorem finishCsi_over (k : AnsiKey) (past : List KeyEvent) (b : UInt8) :
    finishCsi (k.onto past) b = (finishCsi k b).onto past := by
  unfold finishCsi
  dsimp only
  generalize (if b = 0x7E then csiTilde (csiNumber (k.pend.drop 2) 0) else csiFinal b) = sc
  split <;> rfl

theorem ansiKeyRest_over {again : AnsiKey → UInt8 → AnsiKey} {past : List KeyEvent}
    (hagain : ∀ k b, again (AnsiKey.onto k past) b = (again k b).onto past) (k : AnsiKey)
    (b : UInt8) : ansiKeyRest again (k.onto past) b = (ansiKeyRest again k b).onto past := by
  unfold ansiKeyRest
  dsimp only
  split
  · rw [mapByte_over]
    repeat' split
    all_goals rfl
  · split
    · rfl
    · exact hagain { k.inject 0x01 0x1B with pend := [], pendAge := 0 } b
  · split
    · split
      · split <;> rfl
      · rw [show finishCsi { k.onto past with pendAge := 0 } b =
            (finishCsi { k with pendAge := 0 } b).onto past from
          finishCsi_over { k with pendAge := 0 } past b]
    · split
      · split <;> rfl
      · rfl

theorem ansiKeyHead_over {rest : AnsiKey → UInt8 → AnsiKey} {past : List KeyEvent}
    (hrest : ∀ k b, rest (AnsiKey.onto k past) b = (rest k b).onto past) (k : AnsiKey)
    (b : UInt8) : ansiKeyHead rest (k.onto past) b = (ansiKeyHead rest k b).onto past := by
  unfold ansiKeyHead
  dsimp only
  split
  · split <;> rfl
  · split
    · rfl
    · split
      · split
        · rfl
        · exact hrest { k with rbState := 0, swallow := false } b
      · exact hrest { k with rbState := 0 } b

/-- A byte does not look at what was injected before. -/
theorem ansiKeyByte_over (k : AnsiKey) (past : List KeyEvent) (b : UInt8) :
    ansiKeyByte (k.onto past) b = (ansiKeyByte k b).onto past :=
  ansiKeyHead_over (ansiKeyRest_over (ansiKeyHead_over (ansiKeyRest_over fun _ _ => rfl))) k b

theorem foldl_ansiKeyByte_over (past : List KeyEvent) : ∀ (bytes : List UInt8) (k : AnsiKey),
    bytes.foldl ansiKeyByte (k.onto past) = (bytes.foldl ansiKeyByte k).onto past
  | [], _ => rfl
  | b :: bytes, k => by
      rw [List.foldl_cons, List.foldl_cons, ansiKeyByte_over,
        foldl_ansiKeyByte_over past bytes]

/-- The state between two bytes of ordinary input: the sentinel is at rest, and a swallowed LF
leaves nothing pending. -/
structure AnsiKey.Calm (k : AnsiKey) : Prop where
  sentinel : k.rbState = 0
  swallow : k.swallow = true → k.pend = []

/-- The sentinel is passed, and the byte is no paired LF or NUL. -/
theorem ansiKeyHead_calm {rest : AnsiKey → UInt8 → AnsiKey} {k : AnsiKey} {b : UInt8}
    (h : k.rbState = 0) (hb : b ≠ 0x1E) (hlf : k.swallow = true → b ≠ 0x0A ∧ b ≠ 0) :
    ansiKeyHead rest k b = rest { k with swallow := false } b := by
  unfold ansiKeyHead
  rw [if_neg hb, if_neg (by omega)]
  dsimp only
  cases hs : k.swallow with
  | true =>
      obtain ⟨hl, hn⟩ := hlf hs
      rw [if_pos rfl, if_neg (by simp [hl, hn]), ← h]
  | false => rw [if_neg Bool.false_ne_true, ← h, ← hs]

theorem mapByte_kept (k : AnsiKey) (b : UInt8) :
    (mapByte k b).pend = k.pend ∧ (mapByte k b).rbState = k.rbState ∧
      (mapByte k b).swallow = k.swallow := by
  unfold mapByte
  dsimp only
  repeat' split
  all_goals exact ⟨rfl, rfl, rfl⟩

theorem finishCsi_kept (k : AnsiKey) (b : UInt8) :
    (finishCsi k b).rbState = k.rbState ∧ (finishCsi k b).swallow = k.swallow := by
  unfold finishCsi
  dsimp only
  generalize (if b = 0x7E then csiTilde (csiNumber (k.pend.drop 2) 0) else csiFinal b) = sc
  split <;> exact ⟨rfl, rfl⟩

/-- What a byte leaves pending is new. -/
def AnsiKey.Fresh (k : AnsiKey) : Prop := k.pend = [] ∨ k.pendAge = 0

/-- A byte of ordinary input. -/
theorem AnsiKey.Calm.rest {again : AnsiKey → UInt8 → AnsiKey} {k : AnsiKey} (hs : k.rbState = 0)
    (hsw : k.swallow = false) (b : UInt8)
    (hagain : ∀ k₁ : AnsiKey, k₁.pend = [] → k₁.rbState = 0 → k₁.swallow = false →
      (again k₁ b).Calm ∧ (again k₁ b).Fresh) :
    (ansiKeyRest again k b).Calm ∧ (ansiKeyRest again k b).Fresh := by
  unfold ansiKeyRest
  split
  next hp =>
    split
    · exact ⟨⟨hs, fun h => by rw [hsw] at h; cases h⟩, .inr rfl⟩
    · split
      · exact ⟨⟨hs, fun _ => hp⟩, .inl hp⟩
      · obtain ⟨hpend, hstate, -⟩ := mapByte_kept k b
        exact ⟨⟨hstate.trans hs, fun _ => hpend.trans hp⟩, .inl (hpend.trans hp)⟩
  next hp =>
    dsimp only
    split
    · exact ⟨⟨hs, fun h => by rw [hsw] at h; cases h⟩, .inr rfl⟩
    · exact hagain _ rfl hs hsw
  next hp =>
    dsimp only
    split
    · split
      · split
        · exact ⟨⟨hs, fun h => by rw [hsw] at h; cases h⟩, .inr rfl⟩
        · exact ⟨⟨hs, fun h => by rw [hsw] at h; cases h⟩, .inr rfl⟩
      · exact ⟨⟨(finishCsi_kept _ b).1.trans hs, fun _ => rfl⟩, .inl rfl⟩
    · split
      · refine ⟨⟨?_, fun _ => rfl⟩, .inl rfl⟩
        dsimp only
        split
        · exact hs
        · exact hs
      · exact ⟨⟨hs, fun _ => rfl⟩, .inl rfl⟩

theorem AnsiKey.Calm.byte {k : AnsiKey} (h : k.Calm) {b : UInt8} (hb : b ≠ 0x1E) :
    (ansiKeyByte k b).Calm ∧ (ansiKeyByte k b).Fresh := by
  by_cases hlf : k.swallow = true → b ≠ 0x0A ∧ b ≠ 0
  · rw [ansiKeyByte, ansiKeyHead_calm h.sentinel hb hlf]
    refine AnsiKey.Calm.rest (k := { k with swallow := false }) h.sentinel rfl b
      fun k₁ hp hs hsw => ?_
    have hlf₁ : k₁.swallow = true → b ≠ 0x0A ∧ b ≠ 0 := by
      intro h
      rw [hsw] at h
      cases h
    rw [ansiKeyHead_calm hs hb hlf₁]
    refine AnsiKey.Calm.rest (k := { k₁ with swallow := false }) hs rfl b
      fun k₂ hp₂ hs₂ hsw₂ => ?_
    exact ⟨⟨hs₂, fun _ => hp₂⟩, .inl hp₂⟩
  · obtain ⟨hsw, hpair⟩ := Classical.not_imp.mp hlf
    have hp := h.swallow hsw
    have hlf' : b = 0x0A ∨ b = 0 := by
      by_contra hno
      rw [not_or] at hno
      exact hpair hno
    rw [ansiKeyByte, ansiKeyHead, if_neg hb, if_neg (by rw [h.sentinel]; omega)]
    dsimp only
    rw [if_pos hsw, if_pos hlf']
    exact ⟨⟨rfl, fun _ => hp⟩, .inl hp⟩

theorem AnsiKey.Fresh.tick {k : AnsiKey} (h : k.Fresh) : (ansiKeyTick k).face = k.face := by
  unfold ansiKeyTick
  dsimp only
  rcases h with hp | ha
  · rw [hp]
    rfl
  · split
    · rw [ha, if_neg (by decide)]
    · rfl

/-- The bytes of one sequence, with at most one tick between two of them. -/
inductive KeyPaced : List UInt8 → List (KeyStep C) → Prop where
  | last (c : C) (b : UInt8) : KeyPaced [b] [.byte c b]
  | next (c : C) (b : UInt8) {bytes : List UInt8} {steps : List (KeyStep C)}
      (h : KeyPaced bytes steps) : KeyPaced (b :: bytes) (.byte c b :: steps)
  | slow (c : C) (b : UInt8) {bytes : List UInt8} {steps : List (KeyStep C)}
      (h : KeyPaced bytes steps) : KeyPaced (b :: bytes) (.byte c b :: .tick :: steps)

theorem foldl_ansiKeyByte_face : ∀ (bytes : List UInt8) {k k' : AnsiKey}, k'.face = k.face →
    (bytes.foldl ansiKeyByte k').face = (bytes.foldl ansiKeyByte k).face
  | [], _, _, h => h
  | b :: bytes, _, _, h => foldl_ansiKeyByte_face bytes (ansiKeyByte_face h b)

/-- The ticks inside a sequence make no difference. -/
theorem KeyPaced.run {bytes : List UInt8} {steps : List (KeyStep C)} (h : KeyPaced bytes steps)
    (hb : 0x1E ∉ bytes) : ∀ {k : AnsiKey}, k.Calm →
      (keyRun steps k).face = (bytes.foldl ansiKeyByte k).face := by
  induction h with
  | last c b => exact fun _ => rfl
  | next c b h ih =>
      intro k hk
      rw [List.mem_cons, not_or] at hb
      exact ih hb.2 (hk.byte (Ne.symm hb.1)).1
  | slow c b h ih =>
      rename_i bytes steps
      intro k hk
      rw [List.mem_cons, not_or] at hb
      obtain ⟨hcalm, hfresh⟩ := hk.byte (Ne.symm hb.1)
      have hface := hfresh.tick
      have hcalm' : (ansiKeyTick (ansiKeyByte k b)).Calm := by
        simp only [AnsiKey.face, Prod.mk.injEq] at hface
        refine ⟨hface.2.2.1.trans hcalm.sentinel, fun hsw => hface.1.trans (hcalm.swallow ?_)⟩
        rw [← hface.2.1]
        exact hsw
      exact (ih hb.2 hcalm').trans (foldl_ansiKeyByte_face bytes hface)

/-- The bytes of one sequence, and the ticks before the next one. -/
def Sends (bytes : List UInt8) (n : Nat) (steps : List (KeyStep C)) : Prop :=
  ∃ core, KeyPaced bytes core ∧ steps = core ++ List.replicate n .tick

/-- Nothing is pending. -/
structure AnsiKey.Idle (k : AnsiKey) : Prop where
  pend : k.pend = []
  sentinel : k.rbState = 0

theorem AnsiKey.Idle.calm {k : AnsiKey} (h : k.Idle) : k.Calm := ⟨h.sentinel, fun _ => h.pend⟩

theorem AnsiKey.Idle.of_face {k k' : AnsiKey} (h : k.Idle) (hface : k'.face = k.face) :
    k'.Idle := by
  simp only [AnsiKey.face, Prod.mk.injEq] at hface
  exact ⟨hface.1.trans h.pend, hface.2.2.1.trans h.sentinel⟩

theorem keyRun_append (xs ys : List (KeyStep C)) (k : AnsiKey) :
    keyRun (xs ++ ys) k = keyRun ys (keyRun xs k) := List.foldl_append

/-- Ticks at rest do nothing. -/
theorem AnsiKey.Idle.ticks {k : AnsiKey} (h : k.Idle) (n : Nat) :
    keyRun (List.replicate n (KeyStep.tick : KeyStep C)) k = k := by
  induction n with
  | zero => rfl
  | succ n ih =>
      have htick : ansiKeyTick k = k := by
        rw [ansiKeyTick, h.pend]
        rfl
      rw [List.replicate_succ, ← List.singleton_append, keyRun_append]
      change keyRun _ (ansiKeyTick k) = k
      rw [htick, ih]

/-- A sequence that ends at rest. -/
theorem Sends.run {bytes : List UInt8} {n : Nat} {steps : List (KeyStep C)}
    (h : Sends bytes n steps) (hb : 0x1E ∉ bytes) {k : AnsiKey} (hk : k.Idle)
    (hend : (bytes.foldl ansiKeyByte k).Idle) :
    (keyRun steps k).face = (bytes.foldl ansiKeyByte k).face := by
  obtain ⟨core, hpaced, rfl⟩ := h
  have hcore := hpaced.run hb hk.calm
  rw [keyRun_append, (hend.of_face hcore).ticks]
  exact hcore

/-! ## Keys -/

/-- The make codes of a US keyboard: a row of keys from `base` on, with the characters of each
key without and with shift. -/
def usRows : List (Nat × List UInt8 × List UInt8) :=
  [(0x02, ascii "1234567890-=", ascii "!@#$%^&*()_+"),
    (0x10, ascii "qwertyuiop[]", ascii "QWERTYUIOP\x7b\x7d"),
    (0x1E, ascii "asdfghjkl;'`", ascii "ASDFGHJKL:\"~"),
    (0x2B, ascii "\\zxcvbnm,./", ascii "|ZXCVBNM<>?"),
    (0x39, ascii " ", ascii " ")]

/-- The make code of the key that has a character on it. -/
def usScan (c : UInt8) : UInt8 :=
  ((usRows.findSome? fun row =>
    ((row.2.1.idxOf? c).or (row.2.2.idxOf? c)).map fun i => UInt8.ofNat (row.1 + i))).getD 0

/-- The keys without a character. -/
inductive ExtendedKey where
  | up | down | right | left | home | end_ | insert | delete | pageUp | pageDown
  | f1 | f2 | f3 | f4 | f5 | f6 | f7 | f8 | f9 | f10 | f11 | f12
deriving DecidableEq, Repr

/-- Their make codes. -/
def ExtendedKey.scan : ExtendedKey → UInt8
  | up => 0x48 | down => 0x50 | right => 0x4D | left => 0x4B | home => 0x47 | end_ => 0x4F
  | insert => 0x52 | delete => 0x53 | pageUp => 0x49 | pageDown => 0x51
  | f1 => 0x3B | f2 => 0x3C | f3 => 0x3D | f4 => 0x3E | f5 => 0x3F | f6 => 0x40
  | f7 => 0x41 | f8 => 0x42 | f9 => 0x43 | f10 => 0x44 | f11 => 0x57 | f12 => 0x58

/-- What terminals send for them, behind the ESC. -/
def ExtendedKey.sequences : ExtendedKey → List (List UInt8)
  | up => [ascii "[A"] | down => [ascii "[B"] | right => [ascii "[C"] | left => [ascii "[D"]
  | home => [ascii "[H", ascii "[1~", ascii "OH"] | end_ => [ascii "[F", ascii "[4~", ascii "OF"]
  | insert => [ascii "[2~"] | delete => [ascii "[3~"]
  | pageUp => [ascii "[5~"] | pageDown => [ascii "[6~"]
  | f1 => [ascii "[11~", ascii "OP"] | f2 => [ascii "[12~", ascii "OQ"]
  | f3 => [ascii "[13~", ascii "OR"] | f4 => [ascii "[14~", ascii "OS"]
  | f5 => [ascii "[15~"] | f6 => [ascii "[17~"] | f7 => [ascii "[18~"] | f8 => [ascii "[19~"]
  | f9 => [ascii "[20~"] | f10 => [ascii "[21~"] | f11 => [ascii "[23~"] | f12 => [ascii "[24~"]

/-- A key at a terminal. -/
inductive Key where
  | printable (c : UInt8) (h : 32 ≤ c ∧ c ≤ 126)
  | enter
  | tab
  | backspace
  /-- Ctrl and a letter, other than H, I, J and M. -/
  | ctrl (c : UInt8) (h : 1 ≤ c ∧ c ≤ 26 ∧ c ∉ [0x08, 0x09, 0x0A, 0x0D])
  | extended (x : ExtendedKey)
  | escape

/-- The bytes that stand for a key. -/
def Key.encodings : Key → List (List UInt8)
  | printable c _ => [[c]]
  | enter => [[0x0D], [0x0D, 0x0A], [0x0D, 0x00]]
  | tab => [[0x09]]
  | backspace => [[0x08], [0x7F]]
  | ctrl c _ => [[c]]
  | extended x => x.sequences.map (0x1B :: ·)
  | escape => [[0x1B]]

/-- The keystroke of a key. -/
def Key.stroke : Key → KeyEvent
  | printable c _ => .inject (usScan c) c
  | enter => .inject 0x1C 0x0D
  | tab => .inject 0x0F 0x09
  | backspace => .inject 0x0E 0x08
  | ctrl c _ => .inject (usScan (c + 96)) c
  | extended x => .inject x.scan 0
  | escape => .inject 0x01 0x1B

/-- A key as it comes in: one of its encodings, and ticks until the next key.  A lone ESC is the
Escape key only if two ticks follow. -/
def Key.Sent (key : Key) (steps : List (KeyStep C)) : Prop :=
  ∃ enc ∈ key.encodings, ∃ n, Sends enc n steps ∧ (key = .escape → 2 ≤ n)

/-- The state at rest with an empty log; a CR may just have come. -/
def AnsiKey.rested (swallow : Bool) : AnsiKey := { AnsiKey.init with swallow := swallow }

/-- Bytes from a state at rest. -/
theorem AnsiKey.Idle.foldl {k : AnsiKey} (h : k.Idle) (bytes : List UInt8) :
    (bytes.foldl ansiKeyByte k).face =
      ((bytes.foldl ansiKeyByte (AnsiKey.rested k.swallow)).onto k.log).face := by
  rw [← foldl_ansiKeyByte_over]
  refine foldl_ansiKeyByte_face bytes ?_
  simp only [AnsiKey.face, h.pend, h.sentinel]
  rfl

/-- The keystroke of an encoding, and the state at rest behind it. -/
def AnsiKey.Types (bytes : List UInt8) (key : KeyEvent) : Prop :=
  ∀ swallow, (bytes.foldl ansiKeyByte (AnsiKey.rested swallow)).pend = [] ∧
    (bytes.foldl ansiKeyByte (AnsiKey.rested swallow)).rbState = 0 ∧
    (bytes.foldl ansiKeyByte (AnsiKey.rested swallow)).log = [key]

instance (bytes : List UInt8) (key : KeyEvent) : Decidable (AnsiKey.Types bytes key) :=
  inferInstanceAs (Decidable (∀ _, _))

theorem printable_types : ∀ c : UInt8, 32 ≤ c ∧ c ≤ 126 →
    AnsiKey.Types [c] (.inject (usScan c) c) :=
  forall_byte (by decide +kernel)

theorem ctrl_types : ∀ c : UInt8, 1 ≤ c ∧ c ≤ 26 ∧ c ∉ [0x08, 0x09, 0x0A, 0x0D] →
    AnsiKey.Types [c] (.inject (usScan (c + 96)) c) :=
  forall_byte (by decide +kernel)

theorem extended_types (x : ExtendedKey) :
    ∀ enc ∈ x.sequences.map (0x1B :: ·), AnsiKey.Types enc (.inject x.scan 0) := by
  cases x <;> decide +kernel

theorem Key.types {key : Key} (hkey : key ≠ .escape) :
    ∀ enc ∈ key.encodings, AnsiKey.Types enc key.stroke := by
  cases key with
  | printable c h => exact List.forall_mem_singleton.mpr (printable_types c h)
  | enter => decide +kernel
  | tab => decide +kernel
  | backspace => decide +kernel
  | ctrl c h => exact List.forall_mem_singleton.mpr (ctrl_types c h)
  | extended x => exact extended_types x
  | escape => exact absurd rfl hkey

theorem Key.no_sentinel (key : Key) : ∀ enc ∈ key.encodings, 0x1E ∉ enc := by
  have hchar : ∀ c : UInt8, 32 ≤ c ∧ c ≤ 126 → 0x1E ≠ c := forall_byte (by decide +kernel)
  have hctrl : ∀ c : UInt8, 1 ≤ c ∧ c ≤ 26 → 0x1E ≠ c := forall_byte (by decide +kernel)
  cases key with
  | printable c h =>
      refine List.forall_mem_singleton.mpr fun hmem => ?_
      exact hchar c h (List.mem_singleton.mp hmem)
  | enter => decide +kernel
  | tab => decide +kernel
  | backspace => decide +kernel
  | ctrl c h =>
      refine List.forall_mem_singleton.mpr fun hmem => ?_
      exact hctrl c ⟨h.1, h.2.1⟩ (List.mem_singleton.mp hmem)
  | extended x => cases x <;> decide +kernel
  | escape => decide +kernel

/-- What a key does from a state at rest. -/
structure AnsiKey.Struck (k k' : AnsiKey) (key : KeyEvent) : Prop where
  idle : k'.Idle
  log : k'.log = key :: k.log

theorem AnsiKey.Types.foldl {bytes : List UInt8} {key : KeyEvent} (h : AnsiKey.Types bytes key)
    {k : AnsiKey} (hk : k.Idle) : k.Struck (bytes.foldl ansiKeyByte k) key := by
  obtain ⟨hpend, hstate, hlog⟩ := h k.swallow
  have hface := hk.foldl bytes
  simp only [AnsiKey.face, hpend, hstate, hlog, Prod.mk.injEq] at hface
  exact ⟨⟨hface.1, hface.2.2.1⟩, hface.2.2.2⟩

theorem AnsiKey.Types.struck {bytes : List UInt8} {key : KeyEvent} (h : AnsiKey.Types bytes key)
    (hb : 0x1E ∉ bytes) {n : Nat} {steps : List (KeyStep C)} (hs : Sends bytes n steps)
    {k : AnsiKey} (hk : k.Idle) : k.Struck (keyRun steps k) key := by
  obtain ⟨hidle, hlog⟩ := h.foldl hk
  have hrun := hs.run hb hk hidle
  refine ⟨hidle.of_face hrun, ?_⟩
  simp only [AnsiKey.face, Prod.mk.injEq] at hrun
  rw [hrun.2.2.2, hlog]

theorem AnsiKey.Idle.esc {k : AnsiKey} (h : k.Idle) :
    ansiKeyByte k 0x1B = { k with swallow := false, pend := [0x1B], pendAge := 0 } := by
  rw [ansiKeyByte, ansiKeyHead_calm h.sentinel (by decide) fun _ => by decide, ansiKeyRest]
  simp only [h.pend]
  rfl

/-- A lone ESC is injected at the second tick. -/
theorem AnsiKey.Idle.escape {k : AnsiKey} (h : k.Idle) {n : Nat} (hn : 2 ≤ n)
    {steps : List (KeyStep C)} (hs : Sends [0x1B] n steps) :
    k.Struck (keyRun steps k) (.inject 0x01 0x1B) := by
  obtain ⟨core, hcore, rfl⟩ := hs
  obtain ⟨c, rfl⟩ : ∃ c : C, core = [.byte c 0x1B] := by
    cases hcore with
    | last c => exact ⟨c, rfl⟩
    | next _ _ h => cases h
    | slow _ _ h => cases h
  obtain ⟨m, rfl⟩ := Nat.exists_eq_add_of_le hn
  let k₂ : AnsiKey :=
    { k with swallow := false, pend := [], pendAge := 2, log := .inject 0x01 0x1B :: k.log }
  have hk₂ : k₂.Idle := ⟨rfl, h.sentinel⟩
  have hticks : ansiKeyTick (ansiKeyTick (ansiKeyByte k 0x1B)) = k₂ := by
    rw [h.esc]
    rfl
  have hrun : keyRun ([.byte c 0x1B] ++ List.replicate (2 + m) .tick) k = k₂ := by
    rw [← List.replicate_append_replicate, keyRun_append, keyRun_append]
    change keyRun _ (ansiKeyTick (ansiKeyTick (ansiKeyByte k 0x1B))) = k₂
    rw [hticks, hk₂.ticks]
  rw [hrun]
  exact ⟨hk₂, rfl⟩

/-- One key. -/
theorem Key.Sent.struck {key : Key} {steps : List (KeyStep C)} (h : key.Sent steps) {k : AnsiKey}
    (hk : k.Idle) : k.Struck (keyRun steps k) key.stroke := by
  obtain ⟨enc, henc, n, hsends, hn⟩ := h
  by_cases hkey : key = .escape
  · subst hkey
    obtain rfl := List.mem_singleton.mp henc
    exact hk.escape (hn rfl) hsends
  · exact (Key.types hkey enc henc).struck (key.no_sentinel enc henc) hsends hk

/-- A list of keys. -/
theorem Key.Sent.run {keys : List Key} {chunks : List (List (KeyStep C))}
    (h : List.Forall₂ Key.Sent keys chunks) : ∀ {k : AnsiKey}, k.Idle →
      (keyRun chunks.flatten k).Idle ∧
        (keyRun chunks.flatten k).log = (keys.map Key.stroke).reverse ++ k.log := by
  induction h with
  | nil => exact fun hk => ⟨hk, rfl⟩
  | cons hsent _ ih =>
      intro k hk
      obtain ⟨hidle, hlog⟩ := hsent.struck hk
      obtain ⟨hidle', hlog'⟩ := ih hidle
      rw [List.flatten_cons, keyRun_append]
      refine ⟨hidle', ?_⟩
      rw [hlog', hlog, List.map_cons, List.reverse_cons, List.append_assoc]
      rfl

/-- **Keys come through.**  For any keys, in any of their encodings and with ticks anywhere but
two of them inside one sequence, the keystrokes injected are those of the keys, in order, and
nothing stays pending. -/
theorem keys_round_trip {keys : List Key} {chunks : List (List (KeyStep C))} (n : Nat)
    (hsent : List.Forall₂ Key.Sent keys chunks) {k : AnsiKey} (hk : k.Idle) :
    (keyRun (List.replicate n .tick ++ chunks.flatten) k).log =
        (keys.map Key.stroke).reverse ++ k.log ∧
      (keyRun (List.replicate n .tick ++ chunks.flatten) k).pend = [] := by
  rw [keyRun_append, hk.ticks]
  obtain ⟨hidle, hlog⟩ := Key.Sent.run hsent hk
  exact ⟨hlog, hidle.pend⟩

/-- Enter as CR LF with a tick between the two, an arrow, Escape and a letter. -/
def fewKeys : List Key := [.enter, .extended .up, .escape, .printable 0x61 (by decide)]

def fewChunks : List (List (KeyStep Unit)) :=
  [[.byte () 0x0D, .tick, .byte () 0x0A], [.byte () 0x1B, .byte () 0x5B, .tick, .byte () 0x41],
    [.byte () 0x1B, .tick, .tick], [.byte () 0x61]]

theorem keys_round_trip_few :
    List.Forall₂ Key.Sent fewKeys fewChunks ∧ AnsiKey.init.Idle ∧
      (keyRun (List.replicate 1 .tick ++ fewChunks.flatten) AnsiKey.init).log =
          [.inject 0x1E 0x61, .inject 0x01 0x1B, .inject 0x48 0x00, .inject 0x1C 0x0D] ∧
        (keyRun (List.replicate 1 .tick ++ fewChunks.flatten) AnsiKey.init).pend = [] := by
  have hsent : List.Forall₂ Key.Sent fewKeys fewChunks := by
    refine .cons ⟨[0x0D, 0x0A], by decide, 0, ⟨_, .slow () _ (.last () _), rfl⟩, nofun⟩ ?_
    refine .cons ⟨[0x1B, 0x5B, 0x41], by decide, 0,
      ⟨_, .next () _ (.slow () _ (.last () _)), rfl⟩, nofun⟩ ?_
    refine .cons ⟨[0x1B], by decide, 2, ⟨_, .last () _, rfl⟩, fun _ => le_rfl⟩ ?_
    exact .cons ⟨[0x61], by decide, 0, ⟨_, .last () _, rfl⟩, nofun⟩ .nil
  have hidle : AnsiKey.init.Idle := ⟨rfl, rfl⟩
  obtain ⟨hlog, hpend⟩ := keys_round_trip 1 hsent hidle
  refine ⟨hsent, hidle, hlog.trans ?_, hpend⟩
  decide +kernel

end Dossh
