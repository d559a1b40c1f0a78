import Dossh.Lib.Queue
import Dossh.Lib.Ring
import Dossh.Machine

/-!
# The type-ahead ring

`inject_key` puts keystrokes into the ring of the BIOS in segment `0040`, from which the foreground
takes them.  The bounds of the ring are words of the same segment that are read again for each
key.  A ring that lies clear of these two words is a queue that holds one key less than it has words.
A ring that covers them changes its own bounds when a key is stored there.
-/

namespace Dossh

/-! ## The BIOS data area -/

/-- The bytes of segment `0040`. -/
abbrev Segment := Nat → UInt8

/-- The word at an offset. -/
def word (m : Segment) (o : Nat) : Nat := (m o).toNat + 256 * (m (o + 1)).toNat

def setWord (m : Segment) (o w : Nat) : Segment :=
  Function.update (Function.update m o (UInt8.ofNat w)) (o + 1) (UInt8.ofNat (w / 256))

theorem word_setWord (m : Segment) (o : Nat) {w : Nat} (hw : w < 65536) :
    word (setWord m o w) o = w := by
  have hne : o ≠ o + 1 := by omega
  rw [word, setWord, Function.update_of_ne hne, Function.update_self, Function.update_self,
    UInt8.toNat_ofNat', UInt8.toNat_ofNat']
  omega

/-- Words that do not overlap. -/
theorem word_setWord_apart (m : Segment) {o o' : Nat} (w : Nat) (h : o' + 2 ≤ o ∨ o + 2 ≤ o') :
    word (setWord m o w) o' = word m o' := by
  have h0 : o' ≠ o + 1 ∧ o' ≠ o := by omega
  have h1 : o' + 1 ≠ o + 1 ∧ o' + 1 ≠ o := by omega
  rw [word, word, setWord, Function.update_of_ne h0.1, Function.update_of_ne h0.2,
    Function.update_of_ne h1.1, Function.update_of_ne h1.2]

/-- `0040:001A`, the next key to take. -/
def ringHead (m : Segment) : Nat := word m 0x1A

/-- `0040:001C`, the place of the next key to store. -/
def ringTail (m : Segment) : Nat := word m 0x1C

/-- The words at `0040:0080` and `0040:0082` are no bounds: the BIOS is older than they are. -/
def fixedRing (m : Segment) : Bool := word m 0x80 < 0x1E || word m 0x82 ≤ word m 0x80

/-- `bstart`. -/
def bstart (m : Segment) : Nat := if fixedRing m then 0x1E else word m 0x80

/-- `bend`. -/
def bend (m : Segment) : Nat := if fixedRing m then 0x3E else word m 0x82

/-- The place behind `p`, with the wrap of `inject_key`. -/
def nextKey (m : Segment) (p : Nat) : Nat :=
  let next := (p + 2) % 65536
  if next ≥ bend m then bstart m else next

/-- The ring has no room. -/
def ringFull (m : Segment) : Bool := nextKey m (ringTail m) = ringHead m

/-- The word of a keystroke. -/
def keyWord (scan ascii : UInt8) : Nat := scan.toNat * 256 + ascii.toNat

/-- `inject_key`. -/
def injectKey (scan ascii : UInt8) (m : Segment) : Segment :=
  let next := nextKey m (ringTail m)
  if next ≠ ringHead m then setWord (setWord m (ringTail m) (keyWord scan ascii)) 0x1C next
  else m

/-- The foreground takes a key, unless the ring is empty. -/
def takeKey (m : Segment) : Option Nat × Segment :=
  if ringHead m = ringTail m then (none, m)
  else (some (word m (ringHead m)), setWord m 0x1A (nextKey m (ringHead m)))

/-! ## Runs -/

/-- What happens to the ring. -/
inductive RingOp where
  | inject (scan ascii : UInt8)
  | take

/-- The segment, with the keys that were stored and those that were taken. -/
structure RingRun where
  mem : Segment
  accepted : List Nat
  taken : List Nat

def RingRun.start (m : Segment) : RingRun := ⟨m, [], []⟩

def RingRun.step (t : RingRun) : RingOp → RingRun
  | .inject scan ascii =>
      { t with
        mem := injectKey scan ascii t.mem
        accepted := if ringFull t.mem then t.accepted else t.accepted ++ [keyWord scan ascii] }
  | .take =>
      let (key, m) := takeKey t.mem
      { t with mem := m, taken := t.taken ++ key.toList }

def RingRun.run (t : RingRun) (ops : List RingOp) : RingRun := ops.foldl RingRun.step t

/-- The number of words of the ring. -/
def ringWords (m : Segment) : Nat := (bend m - bstart m) / 2

/-- The number of a word of the ring. -/
def ringSlot (m : Segment) (p : Nat) : Nat := (p - bstart m) / 2

/-- The keys in the ring, the next one to take first. -/
def pendingKeys (m : Segment) : List Nat :=
  Ring.read (ringWords m) (fun i => word m (bstart m + 2 * i)) (ringSlot m (ringHead m))
    (Ring.dist (ringWords m) (ringSlot m (ringTail m)) (ringSlot m (ringHead m)))

/-- A place in the ring. -/
def InRing (m : Segment) (p : Nat) : Prop := bstart m ≤ p ∧ p < bend m ∧ p % 2 = 0

/-- A ring of words with its two places in it. -/
structure RingSet (m : Segment) : Prop where
  bstart_even : bstart m % 2 = 0
  bend_even : bend m % 2 = 0
  head_in : InRing m (ringHead m)
  tail_in : InRing m (ringTail m)

/-- What is asked of a run that started with `m`. -/
structure RingKept (m : Segment) (t : RingRun) : Prop where
  bounds : bstart t.mem = bstart m ∧ bend t.mem = bend m
  head_in : InRing m (ringHead t.mem)
  tail_in : InRing m (ringTail t.mem)
  order : pendingKeys m ++ t.accepted = t.taken ++ pendingKeys t.mem
  full_iff : ringFull t.mem = true ↔
    (pendingKeys t.mem).length = (bend m - bstart m) / 2 - 1
  refused : ∀ scan ascii, ringFull t.mem = true → injectKey scan ascii t.mem = t.mem

/-! ## The ring as a queue -/

/-- The ring `m` has `n` words from `lo` on, none of which is a bound, and its two places are the
words `i` and `j`. -/
structure Laid (lo n i j : Nat) (m : Segment) : Prop where
  start_eq : bstart m = lo
  end_eq : bend m = lo + 2 * n
  low : 0x1E ≤ lo
  high : lo + 2 * n < 65536
  apart : lo + 2 * n ≤ 0x80 ∨ 0x84 ≤ lo
  head_eq : ringHead m = lo + 2 * i
  tail_eq : ringTail m = lo + 2 * j
  head_lt : i < n
  tail_lt : j < n

/-- The words of a segment from `lo` on. -/
def slots (lo : Nat) (m : Segment) (i : Nat) : Nat := word m (lo + 2 * i)

/-- A store outside the bounds leaves them. -/
theorem bounds_setWord (m : Segment) {o : Nat} (w : Nat) (h : o + 2 ≤ 0x80 ∨ 0x84 ≤ o) :
    bstart (setWord m o w) = bstart m ∧ bend (setWord m o w) = bend m := by
  have hstart : word (setWord m o w) 0x80 = word m 0x80 := word_setWord_apart m w (by omega)
  have hend : word (setWord m o w) 0x82 = word m 0x82 := word_setWord_apart m w (by omega)
  unfold bstart bend fixedRing
  rw [hstart, hend]
  exact ⟨rfl, rfl⟩

theorem slots_setWord_apart (lo : Nat) (m : Segment) {o : Nat} (w : Nat) (h : o + 2 ≤ lo) :
    slots lo (setWord m o w) = slots lo m := by
  funext i
  exact word_setWord_apart m w (.inr (by omega))

theorem slots_setWord (lo j : Nat) (m : Segment) {w : Nat} (hw : w < 65536) :
    slots lo (setWord m (lo + 2 * j) w) = Function.update (slots lo m) j w := by
  funext i
  by_cases hij : i = j
  · subst hij
    rw [Function.update_self]
    exact word_setWord m _ hw
  · rw [Function.update_of_ne hij]
    exact word_setWord_apart m w (by omega)

theorem keyWord_lt (scan ascii : UInt8) : keyWord scan ascii < 65536 := by
  have hscan := scan.toNat_lt
  have hascii := ascii.toNat_lt
  unfold keyWord
  omega

namespace Laid

variable {lo n i j : Nat} {m : Segment}

theorem ringWords_eq (h : Laid lo n i j m) : ringWords m = n := by
  rw [ringWords, h.start_eq, h.end_eq]
  omega

/-- The keys in the ring are a run of words. -/
theorem pendingKeys_eq (h : Laid lo n i j m) :
    pendingKeys m = Ring.read n (slots lo m) i (Ring.dist n j i) := by
  have hslot : ∀ k, ringSlot m (lo + 2 * k) = k := by
    intro k
    rw [ringSlot, h.start_eq]
    omega
  rw [pendingKeys, h.ringWords_eq, h.head_eq, h.tail_eq, hslot, hslot, h.start_eq]
  rfl

theorem length_pendingKeys (h : Laid lo n i j m) : (pendingKeys m).length = Ring.dist n j i := by
  rw [h.pendingKeys_eq, Ring.length_read]

/-- The wrap of the ring goes through its words in a circle. -/
theorem nextKey_eq (h : Laid lo n i j m) {k : Nat} (hk : k < n) :
    nextKey m (lo + 2 * k) = lo + 2 * ((k + 1) % n) := by
  have hhigh := h.high
  have hsmall : (lo + 2 * k + 2) % 65536 = lo + 2 * k + 2 := Nat.mod_eq_of_lt (by omega)
  unfold nextKey
  rw [hsmall, h.start_eq, h.end_eq]
  dsimp only
  split
  next hwrap =>
    have hlast : k + 1 = n := by omega
    rw [hlast, Nat.mod_self, Nat.mul_zero, Nat.add_zero]
  next hin => rw [Nat.mod_eq_of_lt (by omega : k + 1 < n), Nat.mul_add, Nat.mul_one, Nat.add_assoc]

theorem full_iff (h : Laid lo n i j m) : ringFull m = true ↔ Ring.dist n j i + 1 = n := by
  rw [ringFull, decide_eq_true_eq, h.tail_eq, h.head_eq, h.nextKey_eq h.tail_lt,
    ← Ring.succ_mod_eq_iff h.tail_lt h.head_lt]
  omega

theorem empty_iff (h : Laid lo n i j m) : ringHead m = ringTail m ↔ Ring.dist n j i = 0 := by
  rw [h.head_eq, h.tail_eq, Ring.dist_eq_zero_iff h.tail_lt h.head_lt]
  omega

/-- A key that is accepted is stored behind the others. -/
theorem inject (h : Laid lo n i j m) (hroom : ringFull m = false) (scan ascii : UInt8) :
    Laid lo n i ((j + 1) % n) (injectKey scan ascii m) ∧
      pendingKeys (injectKey scan ascii m) = pendingKeys m ++ [keyWord scan ascii] := by
  have hpos : 0 < n := Nat.zero_lt_of_lt h.head_lt
  have hlow := h.low
  have hhigh := h.high
  have hj := h.tail_lt
  have hnext : nextKey m (ringTail m) ≠ ringHead m := of_decide_eq_false hroom
  have hlt : (j + 1) % n < n := Nat.mod_lt _ hpos
  have heq : injectKey scan ascii m =
      setWord (setWord m (lo + 2 * j) (keyWord scan ascii)) 0x1C (lo + 2 * ((j + 1) % n)) := by
    rw [injectKey, if_pos hnext, h.tail_eq, h.nextKey_eq h.tail_lt]
  have hstored := bounds_setWord m (keyWord scan ascii)
    (by have := h.apart; omega : lo + 2 * j + 2 ≤ 0x80 ∨ 0x84 ≤ lo + 2 * j)
  have hmoved := bounds_setWord (setWord m (lo + 2 * j) (keyWord scan ascii))
    (lo + 2 * ((j + 1) % n)) (by omega : 0x1C + 2 ≤ 0x80 ∨ 0x84 ≤ 0x1C)
  have hlaid : Laid lo n i ((j + 1) % n) (injectKey scan ascii m) := by
    rw [heq]
    refine ⟨hmoved.1.trans (hstored.1.trans h.start_eq), hmoved.2.trans (hstored.2.trans h.end_eq),
      hlow, hhigh, h.apart, ?_, ?_, h.head_lt, hlt⟩
    · rw [ringHead, word_setWord_apart _ _ (by omega), word_setWord_apart _ _ (by omega)]
      exact h.head_eq
    · exact word_setWord _ _ (by omega)
  have hdist : Ring.dist n j i + 1 < n := by
    have hnot : ¬ Ring.dist n j i + 1 = n := by
      rw [← h.full_iff, hroom]
      exact Bool.false_ne_true
    have := Ring.dist_lt hpos j i
    omega
  refine ⟨hlaid, ?_⟩
  have hplace : (i + Ring.dist n j i) % n = j := by
    rw [Ring.add_dist_mod hpos, Nat.mod_eq_of_lt h.tail_lt]
  have hpush := Ring.read_push (slots lo m) (k := i) (Nat.lt_of_succ_lt hdist) (keyWord scan ascii)
  rw [hplace] at hpush
  rw [hlaid.pendingKeys_eq, h.pendingKeys_eq, Ring.dist_succ hdist, heq,
    slots_setWord_apart lo _ _ hlow, slots_setWord lo j m (keyWord_lt scan ascii), hpush]

/-- A key that is taken is the first one. -/
theorem take (h : Laid lo n i j m) (hne : ringHead m ≠ ringTail m) :
    Laid lo n ((i + 1) % n) j (takeKey m).2 ∧
      ∃ key, (takeKey m).1 = some key ∧ pendingKeys m = key :: pendingKeys (takeKey m).2 := by
  have hpos : 0 < n := Nat.zero_lt_of_lt h.head_lt
  have hlow := h.low
  have hhigh := h.high
  have hlt : (i + 1) % n < n := Nat.mod_lt _ hpos
  have heq : takeKey m =
      (some (slots lo m i), setWord m 0x1A (lo + 2 * ((i + 1) % n))) := by
    rw [takeKey, if_neg hne, h.head_eq, h.nextKey_eq h.head_lt]
    rfl
  have hmoved := bounds_setWord m (lo + 2 * ((i + 1) % n))
    (by omega : 0x1A + 2 ≤ 0x80 ∨ 0x84 ≤ 0x1A)
  have hlaid : Laid lo n ((i + 1) % n) j (takeKey m).2 := by
    rw [heq]
    refine ⟨hmoved.1.trans h.start_eq, hmoved.2.trans h.end_eq, hlow, hhigh, h.apart, ?_, ?_, hlt,
      h.tail_lt⟩
    · exact word_setWord _ _ (by omega)
    · rw [ringTail, word_setWord_apart _ _ (by omega)]
      exact h.tail_eq
  obtain ⟨d, hd⟩ : ∃ d, Ring.dist n j i = d + 1 :=
    Nat.exists_eq_succ_of_ne_zero (mt h.empty_iff.mpr hne)
  have hless : Ring.dist n j ((i + 1) % n) = d := by
    rw [Ring.dist_add hpos (by omega), hd, Nat.add_sub_cancel]
  have hsame : slots lo (takeKey m).2 = slots lo m := by
    rw [heq]
    exact slots_setWord_apart lo m _ (by omega)
  refine ⟨hlaid, slots lo m i, by rw [heq], ?_⟩
  rw [hlaid.pendingKeys_eq, h.pendingKeys_eq, hless, hd, Ring.read_succ, Ring.read_mod,
    Nat.mod_eq_of_lt h.head_lt, hsame]

end Laid

theorem injectKey_full {m : Segment} (h : ringFull m = true) (scan ascii : UInt8) :
    injectKey scan ascii m = m :=
  if_neg (not_not_intro (of_decide_eq_true h))

/-- What an operation is for the queue. -/
def RingOp.queueOp : RingOp → Queue.Op Nat
  | .inject scan ascii => .push (keyWord scan ascii)
  | .take => .pop

/-- The queue that the ring stands for. -/
def RingRun.log (t : RingRun) : Queue.Log Nat := ⟨pendingKeys t.mem, t.accepted, t.taken⟩

namespace Laid

variable {lo n i j : Nat} {t : RingRun}

theorem inject_log (h : Laid lo n i j t.mem) (scan ascii : UInt8) :
    (t.step (.inject scan ascii)).log = t.log.step (n - 1) (.push (keyWord scan ascii)) := by
  have hlen : t.log.items.length = Ring.dist n j i := h.length_pendingKeys
  have hlt := Ring.dist_lt (Nat.zero_lt_of_lt h.head_lt) j i
  cases hfull : ringFull t.mem with
  | true =>
      have hcap : ¬ t.log.items.length < n - 1 := by
        have := h.full_iff.mp hfull
        omega
      rw [Queue.Log.step_full hcap]
      simp only [RingRun.log, RingRun.step, hfull, if_true, injectKey_full hfull]
  | false =>
      have hcap : t.log.items.length < n - 1 := by
        have hne : ¬ Ring.dist n j i + 1 = n := by
          rw [← h.full_iff, hfull]
          exact Bool.false_ne_true
        omega
      rw [Queue.Log.step_room hcap]
      simp only [RingRun.log, RingRun.step, hfull, Bool.false_eq_true, if_false,
        (h.inject hfull scan ascii).2]

theorem take_log (h : Laid lo n i j t.mem) : (t.step .take).log = t.log.step (n - 1) .pop := by
  by_cases hempty : ringHead t.mem = ringTail t.mem
  · have hnil : t.log.items = [] := by
      rw [← List.length_eq_zero_iff]
      exact h.length_pendingKeys.trans (h.empty_iff.mp hempty)
    rw [Queue.Log.step_empty hnil]
    simp only [RingRun.log, RingRun.step, takeKey, if_pos hempty, Option.toList_none,
      List.append_nil]
  · obtain ⟨-, key, hkey, hcons⟩ := h.take hempty
    have hitems : t.log.items = key :: pendingKeys (takeKey t.mem).2 := hcons
    rw [Queue.Log.step_pop hitems]
    simp only [RingRun.log, RingRun.step, hkey, Option.toList_some]

end Laid

/-- A ring of `n` words is a queue of `n - 1` keys. -/
theorem ring_represents (lo n : Nat) : Queue.Represents RingRun.step
    (fun t => ∃ i j, Laid lo n i j t.mem) RingRun.log (n - 1) RingOp.queueOp where
  keeps := by
    rintro t op ⟨i, j, h⟩
    cases op with
    | inject scan ascii =>
        cases hfull : ringFull t.mem with
        | true =>
            refine ⟨i, j, ?_⟩
            show Laid lo n i j (injectKey scan ascii t.mem)
            rw [injectKey_full hfull]
            exact h
        | false => exact ⟨i, (j + 1) % n, (h.inject hfull scan ascii).1⟩
    | take =>
        by_cases hempty : ringHead t.mem = ringTail t.mem
        · refine ⟨i, j, ?_⟩
          show Laid lo n i j (takeKey t.mem).2
          rw [takeKey, if_pos hempty]
          exact h
        · exact ⟨(i + 1) % n, j, (h.take hempty).1⟩
  step := by
    rintro t op ⟨i, j, h⟩
    cases op with
    | inject scan ascii => exact h.inject_log scan ascii
    | take => exact h.take_log

/-! ## The discipline -/

theorem word_lt (m : Segment) (o : Nat) : word m o < 65536 := by
  have hlow := (m o).toNat_lt
  have hhigh := (m (o + 1)).toNat_lt
  unfold word
  omega

/-- The bounds that `inject_key` uses are behind the words of the two places. -/
theorem bstart_ge (m : Segment) : 0x1E ≤ bstart m := by
  unfold bstart
  split
  · exact Nat.le_refl _
  next hfixed =>
    rw [fixedRing, Bool.or_eq_true, not_or, decide_eq_true_eq, Nat.not_lt] at hfixed
    exact hfixed.1

theorem bend_lt (m : Segment) : bend m < 65536 := by
  unfold bend
  split
  · decide
  · exact word_lt m _

theorem RingSet.laid {m : Segment} (h : RingSet m) (hapart : bend m ≤ 0x80 ∨ 0x84 ≤ bstart m) :
    Laid (bstart m) (ringWords m) (ringSlot m (ringHead m)) (ringSlot m (ringTail m)) m := by
  have hhigh := bend_lt m
  have hstart := h.bstart_even
  have hend := h.bend_even
  obtain ⟨hhead, hhead', heven⟩ := h.head_in
  obtain ⟨htail, htail', heven'⟩ := h.tail_in
  unfold ringWords ringSlot
  exact ⟨rfl, by omega, bstart_ge m, by omega, by omega, by omega, by omega, by omega, by omega⟩

/-- **The keyboard ring.**  From every ring that lies clear of the words at `0040:0080` and
`0040:0082`, and for every sequence of keys and reads, the two places stay in the ring, the words
that are read are the accepted keys in order, a key is refused exactly if the ring holds one key less
than it has words, and a key that is refused changes nothing. -/
theorem key_ring_kept (m : Segment) (h : RingSet m)
    (hapart : bend m ≤ 0x80 ∨ 0x84 ≤ bstart m) (ops : List RingOp) :
    RingKept m ((RingRun.start m).run ops) := by
  have hlaid := h.laid hapart
  obtain ⟨⟨i, j, hrun⟩, hlog⟩ := (ring_represents (bstart m) (ringWords m)).run ops
    (s := RingRun.start m) ⟨_, _, hlaid⟩
  have horder : ((Queue.Log.start (pendingKeys m)).run (ringWords m - 1)
      (ops.map RingOp.queueOp)).Kept (pendingKeys m) := (Queue.Log.Kept.start _).run _
  have hin : ∀ k < ringWords m, InRing m (bstart m + 2 * k) := by
    intro k hk
    have heven := h.bstart_even
    have hend := hlaid.end_eq
    exact ⟨by omega, by omega, by omega⟩
  have hlog' : ((RingRun.start m).run ops).log =
      (Queue.Log.start (pendingKeys m)).run (ringWords m - 1) (ops.map RingOp.queueOp) := hlog
  rw [← hlog'] at horder
  refine ⟨⟨hrun.start_eq, hrun.end_eq.trans hlaid.end_eq.symm⟩, ?_, ?_, horder, ?_,
    fun scan ascii hfull => injectKey_full hfull scan ascii⟩
  · rw [RingRun.run, hrun.head_eq]
    exact hin i hrun.head_lt
  · rw [RingRun.run, hrun.tail_eq]
    exact hin j hrun.tail_lt
  · rw [RingRun.run, hrun.full_iff, hrun.length_pendingKeys]
    have hpos := hrun.head_lt
    show _ ↔ _ = ringWords m - 1
    omega

/-- A segment with a ring between `lo` and `hi`, which is empty at `p`. -/
def emptyRing (lo hi p : UInt8) : Segment := fun o =>
  if o = 0x1A ∨ o = 0x1C then p else if o = 0x80 then lo else if o = 0x82 then hi else 0

/-- The ring of the BIOS holds 15 keys, and drops the next one. -/
theorem key_ring_kept_bios :
    RingKept (emptyRing 0x1E 0x3E 0x3C) ((RingRun.start (emptyRing 0x1E 0x3E 0x3C)).run
        (List.replicate 16 (.inject 0x1E 0x61) ++ [.take])) ∧
      ((RingRun.start (emptyRing 0x1E 0x3E 0x3C)).run
        (List.replicate 16 (.inject 0x1E 0x61) ++ [.take])).accepted.length = 15 :=
  have hplace : InRing (emptyRing 0x1E 0x3E 0x3C) 0x3C := ⟨by decide, by decide, by decide⟩
  ⟨key_ring_kept _ ⟨by decide, by decide, hplace, hplace⟩ (.inl (by decide)) _, by decide +kernel⟩

/-- A ring that covers the bounds: the key that is stored at `0040:0080` makes the next read take a
word that is no key. -/
theorem ring_over_bounds :
    RingSet (emptyRing 0x1E 0x84 0x80) ∧
      ((RingRun.start (emptyRing 0x1E 0x84 0x80)).run
        [.inject 0x1E 0x61, .take, .take]).accepted = [0x1E61] ∧
      ((RingRun.start (emptyRing 0x1E 0x84 0x80)).run
        [.inject 0x1E 0x61, .take, .take]).taken = [0x1E61, 0] ∧
      ¬ RingKept (emptyRing 0x1E 0x84 0x80) ((RingRun.start (emptyRing 0x1E 0x84 0x80)).run
        [.inject 0x1E 0x61, .take, .take]) := by
  have hplace : InRing (emptyRing 0x1E 0x84 0x80) 0x80 := ⟨by decide, by decide, by decide⟩
  refine ⟨⟨by decide, by decide, hplace, hplace⟩, by decide +kernel, by decide +kernel, fun h => ?_⟩
  have horder := h.order
  revert horder
  decide +kernel

end Dossh
