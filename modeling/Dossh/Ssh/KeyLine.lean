import Dossh.Lib.Base64
import Dossh.Ssh.Authkeys
import Dossh.Ssh.Strings

/-!
# Keys, signatures and key lines

`b64_decode` reads every spelling of a byte string, and behind it any number of padding characters.
`ed25519_key_from_blob` and `ed25519_sig_from_blob` read two strings and do not look behind them.
`ssh_parse_authkey_line` puts the two together and does not look behind the text.  So every line
that is written as it should be gives its key, and there are three kinds of lines that give a key
although they are written otherwise.
-/

namespace Dossh

open Base64

/-! ## Decoding -/

theorem b64val_digit {v : Nat} (hv : v < 64) : b64val (digit v) = some v := by
  have htable : ∀ v < 64, b64val (digit v) = some v := by decide
  exact htable v hv

theorem b64val_some {ch : UInt8} {v : Nat} (h : b64val ch = some v) : v < 64 ∧ ch = digit v := by
  have htable : ∀ ch : UInt8, ∀ v ∈ b64val ch, v < 64 ∧ ch = digit v :=
    forall_byte (by decide +kernel)
  exact htable ch v h

/-- Digits are no padding. -/
theorem isDigit_ne_pad {ch : UInt8} (h : (b64val ch).isSome) : ch ≠ 61 := by
  rintro rfl
  exact absurd h (by decide)

section

variable {outmax o : Nat} {x₀ x₁ x₂ x₃ : UInt8} {t l : List UInt8}

/-! One turn of the loop of `b64_decode`: each digit is looked up and there is room for each byte. -/

theorem b64Loop_two : b64Loop outmax o [x₀, x₁] = some l ↔
    ∃ c₀, b64val x₀ = some c₀ ∧ ∃ c₁, b64val x₁ = some c₁ ∧ o < outmax ∧
      [UInt8.ofNat (c₀ * 4 + c₁ / 16)] = l := by
  simp only [b64Loop, Option.bind_eq_bind, Option.bind_none, Option.bind_eq_some_iff,
    Option.ite_none_left_eq_some, ge_iff_le, not_le, Option.some.injEq]

theorem b64Loop_three : b64Loop outmax o [x₀, x₁, x₂] = some l ↔
    ∃ c₀, b64val x₀ = some c₀ ∧ ∃ c₁, b64val x₁ = some c₁ ∧ o < outmax ∧
      ∃ c₂, b64val x₂ = some c₂ ∧ o + 1 < outmax ∧
      [UInt8.ofNat (c₀ * 4 + c₁ / 16), UInt8.ofNat (c₁ * 16 + c₂ / 4)] = l := by
  simp only [b64Loop, Option.bind_eq_bind, Option.bind_none, Option.bind_eq_some_iff,
    Option.ite_none_left_eq_some, ge_iff_le, not_le, Option.some.injEq]

theorem b64Loop_four : b64Loop outmax o (x₀ :: x₁ :: x₂ :: x₃ :: t) = some l ↔
    ∃ c₀, b64val x₀ = some c₀ ∧ ∃ c₁, b64val x₁ = some c₁ ∧ o < outmax ∧
      ∃ c₂, b64val x₂ = some c₂ ∧ o + 1 < outmax ∧
      ∃ c₃, b64val x₃ = some c₃ ∧ o + 2 < outmax ∧
      ∃ out, b64Loop outmax (o + 3) t = some out ∧
      UInt8.ofNat (c₀ * 4 + c₁ / 16) :: UInt8.ofNat (c₁ * 16 + c₂ / 4) ::
        UInt8.ofNat (c₂ * 64 + c₃) :: out = l := by
  simp only [b64Loop, Option.bind_eq_bind, Option.bind_none, Option.bind_eq_some_iff,
    Option.ite_none_left_eq_some, ge_iff_le, not_le, Option.some.injEq]

end

/-- What the loop reads is spelled by the text, and there was room for it. -/
theorem b64Loop_spells (outmax : Nat) : ∀ (t l : List UInt8) (o : Nat), o ≤ outmax →
    b64Loop outmax o t = some l → Spells t l ∧ o + l.length ≤ outmax
  | [], l, o, ho, h => by
      cases h
      exact ⟨.nil, ho⟩
  | [x₀], l, o, ho, h => by cases h
  | [x₀, x₁], l, o, ho, h => by
      obtain ⟨c₀, h₀, c₁, h₁, hroom, rfl⟩ := b64Loop_two.mp h
      obtain ⟨hlt₀, rfl⟩ := b64val_some h₀
      obtain ⟨hlt₁, rfl⟩ := b64val_some h₁
      exact ⟨.of_two hlt₀ hlt₁, hroom⟩
  | [x₀, x₁, x₂], l, o, ho, h => by
      obtain ⟨c₀, h₀, c₁, h₁, -, c₂, h₂, hroom, rfl⟩ := b64Loop_three.mp h
      obtain ⟨hlt₀, rfl⟩ := b64val_some h₀
      obtain ⟨hlt₁, rfl⟩ := b64val_some h₁
      obtain ⟨hlt₂, rfl⟩ := b64val_some h₂
      exact ⟨.of_three hlt₀ hlt₁ hlt₂, hroom⟩
  | x₀ :: x₁ :: x₂ :: x₃ :: t, l, o, ho, h => by
      obtain ⟨c₀, h₀, c₁, h₁, -, c₂, h₂, -, c₃, h₃, hroom, out, hout, rfl⟩ := b64Loop_four.mp h
      obtain ⟨hlt₀, rfl⟩ := b64val_some h₀
      obtain ⟨hlt₁, rfl⟩ := b64val_some h₁
      obtain ⟨hlt₂, rfl⟩ := b64val_some h₂
      obtain ⟨hlt₃, rfl⟩ := b64val_some h₃
      obtain ⟨hspells, hlen⟩ := b64Loop_spells outmax t out (o + 3) hroom hout
      refine ⟨.of_four hlt₀ hlt₁ hlt₂ hlt₃ hspells, ?_⟩
      simp only [List.length_cons]
      omega

/-- A text is read as what it spells, if there is room. -/
theorem b64Loop_of_spells (outmax : Nat) {t l : List UInt8} (h : Spells t l) :
    ∀ o, o + l.length ≤ outmax → b64Loop outmax o t = some l := by
  have hbyte : ∀ (a : UInt8) (x : Nat), x % 256 = a.toNat → UInt8.ofNat x = a := by
    intro a x hx
    rw [← UInt8.toNat_inj, UInt8.toNat_ofNat', ← hx]
  induction h with
  | nil => exact fun _ _ => rfl
  | @one a z hz =>
      intro o ho
      have ha := a.toNat_lt
      rw [b64Loop_two]
      refine ⟨_, b64val_digit (by omega), _, b64val_digit (by omega), ho, ?_⟩
      rw [hbyte a _ (by omega)]
  | @two a b z hz =>
      intro o ho
      have ha := a.toNat_lt
      have hb := b.toNat_lt
      rw [b64Loop_three]
      refine ⟨_, b64val_digit (by omega), _, b64val_digit (by omega), Nat.lt_of_succ_lt ho, _,
        b64val_digit (by omega), ho, ?_⟩
      rw [hbyte a _ (by omega), hbyte b _ (by omega)]
  | @group a b c t l h ih =>
      intro o ho
      have ha := a.toNat_lt
      have hb := b.toNat_lt
      have hc := c.toNat_lt
      simp only [List.length_cons] at ho
      rw [b64Loop_four]
      refine ⟨_, b64val_digit (by omega), _, b64val_digit (by omega), by omega, _,
        b64val_digit (by omega), by omega, _, b64val_digit (by omega), by omega, l,
        ih (o + 3) (by omega), ?_⟩
      rw [hbyte a _ (by omega), hbyte b _ (by omega), hbyte c _ (by omega)]

/-- A text spells one byte string at most. -/
theorem spells_unique {t l l' : List UInt8} (h : Spells t l) (h' : Spells t l') : l = l' := by
  have hl := b64Loop_of_spells (l.length + l'.length) h 0 (by omega)
  rw [b64Loop_of_spells _ h' 0 (by omega)] at hl
  exact (Option.some.inj hl).symm

/-- Padding behind a text of digits is dropped. -/
theorem dropPad_append {t pads : List UInt8} (ht : ∀ ch ∈ t, (b64val ch).isSome)
    (hpads : ∀ ch ∈ pads, ch = 61) :
    ((t ++ pads).reverse.dropWhile (· = 61)).reverse = t := by
  have hstop : Lines.Stops (fun ch => decide (ch = 61)) t.reverse := by
    intro ch hch
    exact decide_eq_false (isDigit_ne_pad (ht ch (List.mem_reverse.mp (List.mem_of_head? hch))))
  rw [List.reverse_append, Lines.dropWhile_word _ hstop, List.reverse_reverse]
  intro ch hch
  exact decide_eq_true (hpads ch (List.mem_reverse.mp hch))

theorem isDigit_of_spells {t l : List UInt8} (h : Spells t l) : ∀ ch ∈ t, (b64val ch).isSome := by
  intro ch hch
  obtain ⟨v, hv, rfl⟩ := h.digits ch hch
  rw [b64val_digit hv]
  rfl

/-- `b64_decode` reads a spelling with any number of padding characters behind it. -/
theorem b64Decode_spells {t l pads : List UInt8} {outmax : Nat} (h : Spells t l)
    (hroom : l.length ≤ outmax) (hpads : ∀ ch ∈ pads, ch = 61) :
    b64Decode (t ++ pads) outmax = l := by
  rw [b64Decode, dropPad_append (isDigit_of_spells h) hpads, b64Loop_of_spells _ h 0 (by omega),
    Option.getD_some]

/-- What `b64_decode` reads is spelled in front of the padding. -/
theorem spells_b64Decode {field l : List UInt8} {outmax : Nat} (h : b64Decode field outmax = l)
    (hl : l ≠ []) : ∃ t pads, field = t ++ pads ∧ Spells t l ∧ (∀ ch ∈ pads, ch = 61) ∧
      l.length ≤ outmax := by
  rw [b64Decode] at h
  cases hloop : b64Loop outmax 0 (field.reverse.dropWhile (· = 61)).reverse with
  | none =>
      rw [hloop] at h
      exact absurd h.symm hl
  | some out =>
      rw [hloop, Option.getD_some] at h
      subst h
      obtain ⟨hspells, hroom⟩ := b64Loop_spells outmax _ out 0 (Nat.zero_le _) hloop
      refine ⟨_, (field.reverse.takeWhile (· = 61)).reverse, ?_, hspells, ?_, by omega⟩
      · rw [← List.reverse_append, List.takeWhile_append_dropWhile, List.reverse_reverse]
      · intro ch hch
        have hpad := List.mem_takeWhile_imp (List.mem_reverse.mp hch)
        exact of_decide_eq_true hpad

/-! ## Blobs -/

/-- The blob of a key or a signature. -/
def edBlob (x : List UInt8) : List UInt8 := putNl "ssh-ed25519" ++ putStr x

theorem length_edBlob (x : List UInt8) : (edBlob x).length = 19 + x.length := by
  rw [edBlob, List.length_append, putNl, length_putStr, length_putStr, ← Nat.add_assoc]
  rfl

theorem edBlob_append_ne_nil (x more : List UInt8) : edBlob x ++ more ≠ [] :=
  List.append_ne_nil_of_left_ne_nil (List.cons_ne_nil _ _) more

/-- A blob is told from its front. -/
theorem ed25519FromBlob_iff {len : Nat} (hlen : len < 2 ^ 32) (blob : Payload) (x : List UInt8) :
    (ed25519FromBlob blob len).map Payload.bytes = some x ↔
      x.length = len ∧ ∃ rest, blob.bytes = edBlob x ++ rest := by
  constructor
  · intro h
    obtain ⟨y, hy, rfl⟩ := Option.map_eq_some_iff.mp h
    obtain ⟨rest, hbytes, hx⟩ := ed25519FromBlob_bytes hy
    exact ⟨hx, rest, hbytes⟩
  · rintro ⟨rfl, rest, hbytes⟩
    have hname : blob.bytes.drop 0 = putNl "ssh-ed25519" ++ (putStr x ++ rest) := by
      rw [List.drop_zero, hbytes, edBlob, List.append_assoc]
    obtain ⟨hread, hn, hdrop, -⟩ := rdString_putStr hname (by decide)
    obtain ⟨hread', hx, -, -⟩ := rdString_putStr hdrop hlen
    rw [ed25519FromBlob, hread]
    dsimp only
    rw [if_neg (not_not.mpr hn), hread']
    dsimp only [Payload.sub]
    rw [if_neg (not_not.mpr rfl), Option.map_some]
    exact congrArg some hx

/-! ## Lines -/

/-- What `ssh_parse_authkey_line` takes for the field of the key. -/
def inField (ch : UInt8) : Bool := (b64val ch).isSome || ch = 61

/-- A line with a key: blanks, the name of the algorithm, blanks, digits, padding, and a tail that
the field does not reach into.  The digits spell the blob of the key and maybe more. -/
structure KeyLine (line lead sep t pads tail key more : List UInt8) : Prop where
  line_eq : line = lead ++ (ascii "ssh-ed25519" ++ (sep ++ (t ++ pads ++ tail)))
  lead_blank : ∀ ch ∈ lead, isBlank ch
  sep_blank : ∀ ch ∈ sep, isBlank ch
  sep_ne : sep ≠ []
  spells : Spells t (edBlob key ++ more)
  room : (edBlob key ++ more).length ≤ 80
  pads_only : ∀ ch ∈ pads, ch = 61
  tail_stops : Lines.Stops inField tail
  key_len : key.length = 32

section

variable {line lead sep t pads tail key more : List UInt8}

/-- The name of the algorithm does not begin with a blank. -/
theorem name_stops (x : List UInt8) : Lines.Stops isBlank (ascii "ssh-ed25519" ++ x) := by
  intro ch hch
  cases hch
  rfl

theorem KeyLine.digits (h : KeyLine line lead sep t pads tail key more) :
    ∀ ch ∈ t, (b64val ch).isSome := isDigit_of_spells h.spells

/-- The field begins with a digit. -/
theorem KeyLine.field_stops (h : KeyLine line lead sep t pads tail key more) :
    Lines.Stops isBlank (t ++ pads ++ tail) := by
  have hnot : ∀ ch : UInt8, (b64val ch).isSome → isBlank ch = false :=
    forall_byte (by decide +kernel)
  obtain ⟨ch, t', rfl⟩ := List.exists_cons_of_ne_nil (h.spells.ne_nil (edBlob_append_ne_nil key more))
  intro x hx
  cases hx
  exact hnot ch (h.digits ch List.mem_cons_self)

/-- What is behind the blanks that follow the name. -/
theorem KeyLine.behind (h : KeyLine line lead sep t pads tail key more) :
    ((line.dropWhile isBlank).drop 11).dropWhile isBlank = t ++ pads ++ tail := by
  have hdrop : ∀ x, (ascii "ssh-ed25519" ++ x).drop 11 = x := fun _ => rfl
  rw [h.line_eq, Lines.dropWhile_word h.lead_blank (name_stops _), hdrop,
    Lines.dropWhile_word h.sep_blank h.field_stops]

/-- The field and what follows it. -/
theorem KeyLine.field (h : KeyLine line lead sep t pads tail key more) :
    (t ++ pads ++ tail).takeWhile inField = t ++ pads ∧
      (t ++ pads ++ tail).dropWhile inField = tail := by
  have hfield : ∀ ch ∈ t ++ pads, inField ch := by
    intro ch hch
    rw [inField, Bool.or_eq_true]
    rcases List.mem_append.mp hch with ht | hp
    · exact .inl (h.digits ch ht)
    · exact .inr (decide_eq_true (h.pads_only ch hp))
  exact ⟨Lines.takeWhile_word hfield h.tail_stops, Lines.dropWhile_word hfield h.tail_stops⟩

theorem KeyLine.parses (h : KeyLine line lead sep t pads tail key more) :
    sshParseAuthkeyLine line = some key := by
  obtain ⟨ch, sep', hsep⟩ := List.exists_cons_of_ne_nil h.sep_ne
  have hch : isBlank ch := h.sep_blank ch (by rw [hsep]; exact List.mem_cons_self)
  have hfirst : ∀ x, (ascii "ssh-ed25519" ++ x).headD 0 = 115 := fun _ => rfl
  have hdrop : ∀ x, (ascii "ssh-ed25519" ++ x).drop 11 = x := fun _ => rfl
  have htake : ∀ x, (ascii "ssh-ed25519" ++ x).take 11 = ascii "ssh-ed25519" := fun _ => rfl
  have hlen : ∀ x, ¬ strlen (ascii "ssh-ed25519" ++ x) < 11 := by
    intro x
    rw [strlen, List.takeWhile_append_of_pos (forall_mem_of_all (by decide)), List.length_append]
    exact Nat.not_lt.mpr (Nat.le_add_right 11 _)
  have hblank : ¬ (!isBlank ((sep ++ (t ++ pads ++ tail)).headD 0)) = true := by
    rw [hsep, List.cons_append, List.headD_cons, hch]
    exact Bool.false_ne_true
  have htext : (t ++ pads ++ tail).takeWhile (fun ch => (b64val ch).isSome || ch = 61) = t ++ pads :=
    h.field.1
  rw [sshParseAuthkeyLine, h.line_eq, Lines.dropWhile_word h.lead_blank (name_stops _)]
  dsimp only
  rw [hfirst, hdrop, htake, if_neg (by decide), if_neg (not_or.mpr ⟨hlen _, not_not.mpr rfl⟩),
    if_neg hblank, Lines.dropWhile_word h.sep_blank h.field_stops, htext,
    b64Decode_spells h.spells h.room h.pads_only, ed25519KeyFromBlob,
    ed25519FromBlob_iff (by decide), ofBytes_bytes]
  exact ⟨h.key_len, more, rfl⟩

/-- A line has one field, and one tail behind it. -/
theorem KeyLine.unique {lead' sep' t' pads' tail' key' more' : List UInt8}
    (h : KeyLine line lead sep t pads tail key more)
    (h' : KeyLine line lead' sep' t' pads' tail' key' more') :
    t ++ pads = t' ++ pads' ∧ tail = tail' := by
  have hbehind : t ++ pads ++ tail = t' ++ pads' ++ tail' := h.behind.symm.trans h'.behind
  obtain ⟨htext, htail⟩ := h.field
  rw [hbehind] at htext htail
  exact ⟨htext.symm.trans h'.field.1, htail.symm.trans h'.field.2⟩

end

/-- Every line that gives a key is put together like this. -/
theorem keyLine_of_parses {line key : List UInt8} (h : sshParseAuthkeyLine line = some key) :
    ∃ lead sep t pads tail more, KeyLine line lead sep t pads tail key more := by
  rw [sshParseAuthkeyLine] at h
  dsimp only at h
  split at h
  · cases h
  next hfirst =>
    split at h
    · cases h
    next hname =>
      rw [not_or, not_not] at hname
      split at h
      · cases h
      next hblank =>
        generalize hp : line.dropWhile isBlank = p at *
        rw [ed25519KeyFromBlob, ed25519FromBlob_iff (by decide), ofBytes_bytes] at h
        obtain ⟨hlen, more, hblob⟩ := h
        obtain ⟨t, pads, hfield, hspells, hpads, hroom⟩ :=
          spells_b64Decode hblob (edBlob_append_ne_nil key more)
        refine ⟨line.takeWhile isBlank, (p.drop 11).takeWhile isBlank, t, pads,
          ((p.drop 11).dropWhile isBlank).dropWhile inField, more, ?_,
          fun ch hch => List.mem_takeWhile_imp hch, fun ch hch => List.mem_takeWhile_imp hch, ?_,
          hspells, hroom, hpads, Lines.stops_dropWhile _ _, hlen⟩
        · have htext : t ++ pads ++ ((p.drop 11).dropWhile isBlank).dropWhile inField =
              (p.drop 11).dropWhile isBlank := by
            rw [← hfield]
            exact List.takeWhile_append_dropWhile
          rw [htext, List.takeWhile_append_dropWhile, ← hname.2, List.take_append_drop, ← hp,
            List.takeWhile_append_dropWhile]
        · cases hq : p.drop 11 with
          | nil =>
              rw [hq] at hblank
              exact absurd rfl hblank
          | cons ch q =>
              rw [hq, List.headD_cons, Bool.not_eq_true', Bool.not_eq_false] at hblank
              rw [List.takeWhile_cons, if_pos hblank]
              exact List.cons_ne_nil _ _

/-! ## The round trip -/

/-- A line as it should be written. -/
theorem KeyLine.canonical {lead sep tail key : List UInt8} (hkey : key.length = 32)
    (hlead : ∀ ch ∈ lead, isBlank ch) (hsep : ∀ ch ∈ sep, isBlank ch) (hne : sep ≠ [])
    (htail : Lines.Stops inField tail) :
    KeyLine (lead ++ (ascii "ssh-ed25519" ++ (sep ++ (encode (edBlob key) ++ tail))))
      lead sep (text (edBlob key)) [] tail key [] := by
  have hlen : (edBlob key).length = 51 := by rw [length_edBlob, hkey]
  have hspells := Spells.text (edBlob key)
  refine ⟨?_, hlead, hsep, hne, ?_, ?_, List.forall_mem_nil _, htail, hkey⟩
  · rw [encode_eq_text (by rw [hlen]), List.append_nil]
  · rwa [List.append_nil]
  · rw [List.append_nil, hlen]
    decide

/-- The line of a key gives the key, with any blanks and any tail, and `b64_decode` gives back what
was encoded. -/
theorem authkey_round_trip :
    (∀ key lead sep tail : List UInt8, key.length = 32 →
      (∀ ch ∈ lead, isBlank ch) → (∀ ch ∈ sep, isBlank ch) → sep ≠ [] →
      (∀ ch, tail.head? = some ch → b64val ch = none ∧ ch ≠ 61) →
      sshParseAuthkeyLine (lead ++ (ascii "ssh-ed25519" ++ (sep ++ (encode (edBlob key) ++ tail)))) =
        some key) ∧
    ∀ (l : List UInt8) (outmax : Nat), l.length ≤ outmax →
      b64Decode (encode l) outmax = l ∧ b64Decode (text l) outmax = l := by
  constructor
  · intro key lead sep tail hkey hlead hsep hne htail
    refine (KeyLine.canonical hkey hlead hsep hne fun ch hch => ?_).parses
    rw [inField, (htail ch hch).1, decide_eq_false (htail ch hch).2]
    rfl
  · intro l outmax hroom
    have hunpadded := b64Decode_spells (Spells.text l) hroom (List.forall_mem_nil _)
    rw [List.append_nil] at hunpadded
    exact ⟨b64Decode_spells (Spells.text l) hroom fun ch hch => List.eq_of_mem_replicate hch,
      hunpadded⟩

theorem authkey_round_trip_zero :
    sshParseAuthkeyLine ([9] ++ (ascii "ssh-ed25519" ++ ([32, 9] ++
      (encode (edBlob (List.replicate 32 0)) ++ ascii " me\n")))) = some (List.replicate 32 0) ∧
    b64Decode (encode (ascii "keys")) 4 = ascii "keys" := by
  obtain ⟨hline, hdecode⟩ := authkey_round_trip
  have hlead : ∀ ch ∈ [9], isBlank ch := forall_mem_of_all (by decide)
  have hsep : ∀ ch ∈ [32, 9], isBlank ch := forall_mem_of_all (by decide)
  refine ⟨hline _ [9] [32, 9] _ (by decide) hlead hsep (by decide) fun ch hch => ?_,
    (hdecode _ 4 (by decide)).1⟩
  cases hch
  decide

/-! ## Exactness -/

/-- A blob is accepted for what it is, with nothing behind the string of `len` bytes. -/
def BlobExact (parse : Payload → Option Payload) (len : Nat) (blob : Payload) : Prop :=
  ∀ x, (parse blob).map Payload.bytes = some x ↔ x.length = len ∧ blob.bytes = edBlob x

/-- A blob with more bytes behind it. -/
def Trails (len : Nat) (bytes : List UInt8) : Prop :=
  ∃ x rest, x.length = len ∧ rest ≠ [] ∧ bytes = edBlob x ++ rest

theorem blobExact_iff {len : Nat} (hlen : len < 2 ^ 32) (blob : Payload) :
    BlobExact (ed25519FromBlob · len) len blob ↔ ¬ Trails len blob.bytes := by
  constructor
  · rintro h ⟨x, rest, hx, hne, hbytes⟩
    have hexact := ((h x).mp ((ed25519FromBlob_iff hlen blob x).mpr ⟨hx, rest, hbytes⟩)).2
    rw [hbytes] at hexact
    exact hne (List.append_right_eq_self.mp hexact)
  · intro h x
    rw [ed25519FromBlob_iff hlen blob]
    refine and_congr_right fun hx => ⟨?_, fun hbytes => ⟨[], by rw [List.append_nil, hbytes]⟩⟩
    rintro ⟨rest, hbytes⟩
    have hnil : rest = [] := not_not.mp fun hne => h ⟨x, rest, hx, hne, hbytes⟩
    rw [hbytes, hnil, List.append_nil]

/-- White space of C. -/
def isSpace (ch : UInt8) : Bool := 9 ≤ ch && ch ≤ 13 || ch = 32

/-- The line ends here, or white space follows. -/
def EndsField (tail : List UInt8) : Prop := ∀ ch, tail.head? = some ch → ch = 0 ∨ isSpace ch

theorem EndsField.stops {tail : List UInt8} (h : EndsField tail) : Lines.Stops inField tail := by
  have hnot : ∀ ch : UInt8, ch = 0 ∨ isSpace ch → inField ch = false :=
    forall_byte (by decide +kernel)
  exact fun ch hch => hnot ch (h ch hch)

/-- If the line is accepted, its field is the canonical text of a blob and ends there. -/
def LineExact (line : List UInt8) : Prop :=
  ∀ key, sshParseAuthkeyLine line = some key → key.length = 32 ∧ ∃ lead sep tail,
    (∀ ch ∈ lead, isBlank ch) ∧ (∀ ch ∈ sep, isBlank ch) ∧ sep ≠ [] ∧
    line = lead ++ (ascii "ssh-ed25519" ++ (sep ++ (encode (edBlob key) ++ tail))) ∧ EndsField tail

/-- A line with more behind the blob, with padding where there is nothing to pad, or with something
else than white space behind the field. -/
def SlackLine (line : List UInt8) : Prop :=
  ∃ lead sep t pads tail key more, KeyLine line lead sep t pads tail key more ∧
    (more ≠ [] ∨ pads ≠ [] ∨ ¬ EndsField tail)

theorem lineExact_iff (line : List UInt8) : LineExact line ↔ ¬ SlackLine line := by
  constructor
  · rintro h ⟨lead, sep, t, pads, tail, key, more, hline, hslack⟩
    obtain ⟨hkey, lead', sep', tail', hlead', hsep', hne', heq, hends⟩ := h key hline.parses
    have hcanonical := KeyLine.canonical hkey hlead' hsep' hne' hends.stops
    rw [← heq] at hcanonical
    obtain ⟨htext, htail⟩ := hline.unique hcanonical
    rw [List.append_nil] at htext
    have hpads : pads = [] := by
      refine List.eq_nil_iff_forall_not_mem.mpr fun ch hch => ?_
      have hmem : ch ∈ text (edBlob key) := by
        rw [← htext]
        exact List.mem_append_right t hch
      exact isDigit_ne_pad (isDigit_of_spells (Spells.text _) ch hmem) (hline.pads_only ch hch)
    rw [hpads, List.append_nil] at htext
    have hmore : more = [] := by
      have hspells := hline.spells
      rw [htext] at hspells
      exact List.append_right_eq_self.mp (spells_unique hspells (Spells.text _))
    rcases hslack with hne | hne | hends'
    · exact hne hmore
    · exact hne hpads
    · rw [htail] at hends'
      exact hends' hends
  · intro h key hkey
    obtain ⟨lead, sep, t, pads, tail, more, hline⟩ := keyLine_of_parses hkey
    have htight : more = [] ∧ pads = [] ∧ EndsField tail := by
      by_contra hslack
      rw [not_and_or, not_and_or] at hslack
      exact h ⟨lead, sep, t, pads, tail, key, more, hline, hslack⟩
    obtain ⟨rfl, rfl, hends⟩ := htight
    have hlen : (edBlob key).length = 51 := by rw [length_edBlob, hline.key_len]
    have hspells := hline.spells
    rw [List.append_nil] at hspells
    have htext := hspells.canonical (by rw [hlen])
    refine ⟨hline.key_len, lead, sep, tail, hline.lead_blank, hline.sep_blank, hline.sep_ne, ?_, hends⟩
    rw [hline.line_eq, encode_eq_text (by rw [hlen]), ← htext, List.append_nil]

/-- A blob is parsed exactly if nothing trails behind it, and a line if there is no slack. -/
theorem parsed_exactly_iff (keyBlob sigBlob : Payload) (line : List UInt8) :
    (BlobExact ed25519KeyFromBlob 32 keyBlob ↔ ¬ Trails 32 keyBlob.bytes) ∧
    (BlobExact ed25519SigFromBlob 64 sigBlob ↔ ¬ Trails 64 sigBlob.bytes) ∧
    (LineExact line ↔ ¬ SlackLine line) :=
  ⟨blobExact_iff (by decide) keyBlob, blobExact_iff (by decide) sigBlob, lineExact_iff line⟩

/-- The line of a key, all zero, with a star behind the field. -/
def starLine : List UInt8 :=
  [] ++ (ascii "ssh-ed25519" ++ ([32] ++ (encode (edBlob (List.replicate 32 0)) ++ [42])))

/-- A key and a signature with a byte behind them are accepted, and so is the line with a star. -/
theorem parsed_loosely :
    ¬ BlobExact ed25519KeyFromBlob 32 (.ofBytes (edBlob (List.replicate 32 0) ++ [0])) ∧
    ¬ BlobExact ed25519SigFromBlob 64 (.ofBytes (edBlob (List.replicate 64 0) ++ [0])) ∧
    sshParseAuthkeyLine starLine = some (List.replicate 32 0) ∧ ¬ LineExact starLine := by
  have htrails : ∀ n, Trails n (Payload.ofBytes (edBlob (List.replicate n 0) ++ [0])).bytes := by
    intro n
    rw [ofBytes_bytes]
    exact ⟨List.replicate n 0, [0], List.length_replicate, List.cons_ne_nil _ _, rfl⟩
  have hstar : KeyLine starLine [] [32] (text (edBlob (List.replicate 32 0))) [] [42]
      (List.replicate 32 0) [] := by
    refine .canonical (by decide) (List.forall_mem_nil _) (forall_mem_of_all (by decide)) (by decide)
      fun ch hch => ?_
    cases hch
    decide
  refine ⟨fun h => (blobExact_iff (by decide) _).mp h (htrails 32),
    fun h => (blobExact_iff (by decide) _).mp h (htrails 64), hstar.parses, fun h => ?_⟩
  refine (lineExact_iff _).mp h ⟨_, _, _, _, _, _, _, hstar, .inr (.inr fun hends => ?_)⟩
  exact absurd (hends 42 rfl) (by decide)

end Dossh
