import Mathlib.Data.List.Basic
import Mathlib.Logic.Function.Basic
import Mathlib.Tactic.Linarith

/-!
# Circular buffers

A circular buffer of size `m` is an array of `m` cells and indices that are
reduced modulo `m`.  Such a buffer is understood through an unbounded stream:
the byte at stream position `k` lives in the cell `k % m`.  `Holds m buf S lo`
says that the buffer still has every element of the stream `S` from position
`lo` on.  Pushing at the end of the stream keeps the view as long as the
window `[lo, |S|)` stays below `m`, and reading a run of cells from inside the
window reads the stream.
-/

namespace Ring

variable {α : Type*}

/-! ## Distances -/

/-- How far `a` lies ahead of `b` around a ring of size `m`. -/
def dist (m a b : Nat) : Nat := (a + (m - b % m)) % m

theorem dist_lt {m : Nat} (hm : 0 < m) (a b : Nat) : dist m a b < m := Nat.mod_lt _ hm

/-- The distance between two stream positions less than `m` apart. -/
theorem dist_mod {m a b : Nat} (hle : b ≤ a) (hlt : a - b < m) :
    dist m (a % m) (b % m) = a - b := by
  have hm : 0 < m := by omega
  have hb : b % m < m := Nat.mod_lt _ hm
  unfold dist
  rw [Nat.mod_mod, Nat.mod_add_mod]
  have hsplit : a + (m - b % m) = (a - b) + m * (b / m + 1) := by
    have := Nat.div_add_mod b m
    rw [Nat.mul_add, Nat.mul_one]
    omega
  rw [hsplit, Nat.add_mul_mod_self_left, Nat.mod_eq_of_lt hlt]

/-- Two positions less than `m` apart share a cell only if they are equal. -/
theorem mod_ne_of_lt {m a b : Nat} (hlt : b < a) (hd : a - b < m) : b % m ≠ a % m := by
  intro h
  have hdist := dist_mod (m := m) hlt.le hd
  have hself := dist_mod (m := m) (Nat.le_refl a) (by omega)
  rw [h, hself] at hdist
  omega

theorem dist_mod_mod (m a b : Nat) : dist m (a % m) (b % m) = dist m a b := by
  unfold dist
  rw [Nat.mod_mod, Nat.mod_add_mod]

/-- Walking the distance from `b` leads to the cell of `a`. -/
theorem add_dist_mod {m : Nat} (hm : 0 < m) (a b : Nat) : (b + dist m a b) % m = a % m := by
  have hb : b % m < m := Nat.mod_lt _ hm
  unfold dist
  rw [Nat.add_mod_mod]
  have hsplit : b + (a + (m - b % m)) = a + m * (b / m + 1) := by
    have := Nat.div_add_mod b m
    rw [Nat.mul_add, Nat.mul_one]
    omega
  rw [hsplit, Nat.add_mul_mod_self_left]

/-- Moving `b` up by `k` shortens the distance by `k`. -/
theorem dist_add {m a b k : Nat} (hm : 0 < m) (hk : k ≤ dist m a b) :
    dist m a ((b + k) % m) = dist m a b - k := by
  have hd := dist_lt hm a b
  rw [← dist_mod_mod, Nat.mod_mod, ← add_dist_mod hm a b, dist_mod (by omega) (by omega)]
  omega

/-- Moving `a` up by one makes the distance longer by one. -/
theorem dist_succ {m a b : Nat} (h : dist m a b + 1 < m) :
    dist m ((a + 1) % m) b = dist m a b + 1 := by
  have hswap : dist m ((a + 1) % m) b = (dist m a b + 1) % m := by
    unfold dist
    rw [Nat.mod_add_mod, Nat.mod_add_mod, Nat.add_right_comm]
  rw [hswap, Nat.mod_eq_of_lt h]

theorem dist_eq_zero_iff {m a b : Nat} (ha : a < m) (hb : b < m) : dist m a b = 0 ↔ a = b := by
  constructor
  · intro h
    have hwalk := add_dist_mod (Nat.zero_lt_of_lt ha) a b
    rw [h, Nat.add_zero, Nat.mod_eq_of_lt hb, Nat.mod_eq_of_lt ha] at hwalk
    exact hwalk.symm
  · rintro rfl
    have hself := dist_mod (Nat.le_refl a) (by omega : a - a < m)
    rwa [Nat.mod_eq_of_lt ha, Nat.sub_self] at hself

/-- The cell behind `a` is that of `b` exactly if all other cells lie between them. -/
theorem succ_mod_eq_iff {m a b : Nat} (ha : a < m) (hb : b < m) :
    (a + 1) % m = b ↔ dist m a b + 1 = m := by
  have hm : 0 < m := Nat.zero_lt_of_lt ha
  have hlt := dist_lt hm a b
  constructor
  · intro h
    by_contra hne
    have hnext := dist_succ (by omega : dist m a b + 1 < m)
    rw [h, (dist_eq_zero_iff hb hb).mpr rfl] at hnext
    omega
  · intro h
    have hwalk := add_dist_mod hm a b
    rw [← Nat.mod_add_mod, ← Nat.mod_eq_of_lt ha, Nat.mod_mod, ← hwalk, Nat.mod_add_mod,
      Nat.add_assoc, h, Nat.add_mod_right, Nat.mod_eq_of_lt hb]

/-! ## The stream view -/

/-- Cell `k % m` holds element `k` of `S`, for every position `k` from `lo` on. -/
def Holds (m : Nat) (buf : Nat → α) (S : List α) (lo : Nat) : Prop :=
  ∀ k (h : k < S.length), lo ≤ k → buf (k % m) = S[k]

theorem Holds.nil (m : Nat) (buf : Nat → α) (lo : Nat) : Holds m buf [] lo := by
  intro k h
  simp at h

/-- Giving up positions at the front keeps the view. -/
theorem Holds.mono {m : Nat} {buf : Nat → α} {S : List α} {lo lo' : Nat}
    (h : Holds m buf S lo) (hle : lo ≤ lo') : Holds m buf S lo' :=
  fun k hk hlo => h k hk (hle.trans hlo)

/-- Pushing one element at the end of the stream overwrites no cell of the window. -/
theorem Holds.push {m : Nat} {buf : Nat → α} {S : List α} {lo : Nat} (h : Holds m buf S lo)
    (hroom : S.length - lo < m) (x : α) :
    Holds m (Function.update buf (S.length % m) x) (S ++ [x]) lo := by
  intro k hk hlo
  rw [List.length_append, List.length_singleton] at hk
  rcases Nat.lt_or_ge k S.length with hlt | hge
  · have hne : k % m ≠ S.length % m := mod_ne_of_lt hlt (by omega)
    rw [Function.update_of_ne hne, List.getElem_append_left hlt]
    exact h k hlt hlo
  · have hk' : k = S.length := by omega
    subst hk'
    simp

/-- The run of `n` cells from position `k` on. -/
def read (m : Nat) (buf : Nat → α) (k n : Nat) : List α :=
  (List.range n).map fun i => buf ((k + i) % m)

@[simp] theorem length_read (m : Nat) (buf : Nat → α) (k n : Nat) :
    (read m buf k n).length = n := by
  simp [read]

/-- Reading may start from the cell of a position instead of the position. -/
theorem read_mod (m : Nat) (buf : Nat → α) (k n : Nat) :
    read m buf (k % m) n = read m buf k n := by
  simp [read]

/-- The first element of a run, and the run behind it. -/
theorem read_succ (m : Nat) (buf : Nat → α) (k n : Nat) :
    read m buf k (n + 1) = buf (k % m) :: read m buf (k + 1) n := by
  unfold read
  rw [List.range_succ_eq_map, List.map_cons, List.map_map, Nat.add_zero]
  congr 1
  refine List.map_congr_left fun i _ => ?_
  rw [Function.comp_apply, Nat.add_right_comm, Nat.add_assoc]

/-- Storing behind a run that does not fill the ring makes it longer by one element. -/
theorem read_push {m : Nat} (buf : Nat → α) {k n : Nat} (h : n < m) (x : α) :
    read m (Function.update buf ((k + n) % m) x) k (n + 1) = read m buf k n ++ [x] := by
  unfold read
  rw [List.range_succ, List.map_append, List.map_singleton, Function.update_self]
  congr 1
  refine List.map_congr_left fun i hi => Function.update_of_ne ?_ _ _
  exact mod_ne_of_lt (by simpa using List.mem_range.mp hi) (by omega)

/-- Reading inside the window reads the stream. -/
theorem Holds.read_eq {m : Nat} {buf : Nat → α} {S : List α} {lo k n : Nat}
    (h : Holds m buf S lo) (hlo : lo ≤ k) (hn : k + n ≤ S.length) :
    read m buf k n = (S.drop k).take n := by
  apply List.ext_getElem
  · simp
    omega
  · intro i h1 h2
    simp only [length_read] at h1
    have := h (k + i) (by omega) (by omega)
    simp [read, this]

end Ring
