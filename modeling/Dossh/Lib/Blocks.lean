import Mathlib.Data.List.Basic

/-!
# Blocks of a stream

A stream is worked off in blocks of `k` elements.  `blocks k xs` are the complete blocks of `xs`
from the front.  A machine that is fed one element after the other collects them in a buffer, and
works the buffer off whenever it is a block.  It has then worked off the complete blocks of what it
was fed, and the buffer holds what is behind them (`Fed`).
-/

namespace Blocks

variable {α σ : Type*} {k : Nat} {xs ys : List α}

/-- The complete blocks of `xs`. -/
def blocks (k : Nat) (xs : List α) : List (List α) :=
  (List.range (xs.length / k)).map fun j => (xs.drop (j * k)).take k

@[simp] theorem blocks_nil (k : Nat) : blocks k ([] : List α) = [] := by
  simp [blocks]

@[simp] theorem length_blocks (k : Nat) (xs : List α) : (blocks k xs).length = xs.length / k := by
  simp [blocks]

/-- A block behind complete ones is one more. -/
theorem blocks_append (hk : 0 < k) (hxs : k ∣ xs.length) (hys : ys.length = k) :
    blocks k (xs ++ ys) = blocks k xs ++ [ys] := by
  obtain ⟨q, hq⟩ := hxs
  have hlen : (xs ++ ys).length / k = q + 1 := by
    rw [List.length_append, hq, hys, ← Nat.mul_succ, Nat.mul_div_cancel_left _ hk]
  have hlen' : xs.length / k = q := by
    rw [hq, Nat.mul_div_cancel_left _ hk]
  rw [blocks, blocks, hlen, hlen', List.range_succ, List.map_append, List.map_singleton]
  congr 1
  · refine List.map_congr_left fun j hj => ?_
    have hj : j < q := List.mem_range.mp hj
    have hle : j * k + k ≤ xs.length := by
      rw [hq, Nat.mul_comm k q, ← Nat.succ_mul]
      exact Nat.mul_le_mul_right k hj
    rw [List.drop_append_of_le_length (by omega), List.take_append_of_le_length]
    rw [List.length_drop]
    omega
  · rw [Nat.mul_comm q k, ← hq, List.drop_left, ← hys, List.take_length]

/-- The blocks are worked off one after the other. -/
def work (k : Nat) (f : σ → List α → σ) (s : σ) (xs : List α) : σ := (blocks k xs).foldl f s

@[simp] theorem work_nil (k : Nat) (f : σ → List α → σ) (s : σ) : work k f s [] = s := by
  simp [work]

theorem work_append {f : σ → List α → σ} {s : σ} (hk : 0 < k) (hxs : k ∣ xs.length)
    (hys : ys.length = k) : work k f s (xs ++ ys) = f (work k f s xs) ys := by
  rw [work, blocks_append hk hxs hys, List.foldl_append, List.foldl_cons, List.foldl_nil, work]

/-- What a machine has that was fed `xs`: the result of the complete blocks, and a buffer with the
rest. -/
structure Fed (k : Nat) (f : σ → List α → σ) (s₀ : σ) (xs : List α) (s : σ) (buf : List α) :
    Prop where
  room : buf.length < k
  split : ∃ done, xs = done ++ buf ∧ k ∣ done.length ∧ s = work k f s₀ done

namespace Fed

variable {f : σ → List α → σ} {s₀ s : σ} {buf : List α}

theorem start (hk : 0 < k) : Fed k f s₀ [] s₀ ([] : List α) :=
  ⟨hk, [], rfl, Nat.dvd_zero k, (work_nil k f s₀).symm⟩

/-- An element that does not complete the block. -/
theorem partly (h : Fed k f s₀ xs s buf) {x : α} (hroom : buf.length + 1 < k) :
    Fed k f s₀ (xs ++ [x]) s (buf ++ [x]) := by
  obtain ⟨done, hxs, hdvd, hs⟩ := h.split
  refine ⟨by simpa using hroom, done, ?_, hdvd, hs⟩
  rw [hxs, List.append_assoc]

/-- An element that completes the block. -/
theorem fully (h : Fed k f s₀ xs s buf) {x : α} (hfull : buf.length + 1 = k) :
    Fed k f s₀ (xs ++ [x]) (f s (buf ++ [x])) [] := by
  obtain ⟨done, hxs, hdvd, hs⟩ := h.split
  have hk : 0 < k := by omega
  have hlen : (buf ++ [x]).length = k := by simpa using hfull
  refine ⟨hk, done ++ (buf ++ [x]), ?_, ?_, ?_⟩
  · rw [hxs, List.append_nil, List.append_assoc]
  · rw [List.length_append, hlen]
    exact Nat.dvd_add hdvd (Nat.dvd_refl k)
  · rw [work_append hk hdvd hlen, hs]

theorem length (h : Fed k f s₀ xs s buf) : buf.length = xs.length % k := by
  obtain ⟨done, hxs, ⟨q, hq⟩, -⟩ := h.split
  rw [hxs, List.length_append, hq, Nat.mul_add_mod, Nat.mod_eq_of_lt h.room]

/-- The rest is filled up to one block. -/
theorem close (h : Fed k f s₀ xs s buf) {tail : List α} (hlen : (buf ++ tail).length = k) :
    work k f s₀ (xs ++ tail) = f s (buf ++ tail) := by
  obtain ⟨done, hxs, hdvd, hs⟩ := h.split
  rw [hxs, List.append_assoc, work_append (Nat.zero_lt_of_lt h.room) hdvd hlen, hs]

/-- The rest is filled up to two blocks. -/
theorem close₂ (h : Fed k f s₀ xs s buf) {tail last : List α} (hlen : (buf ++ tail).length = k)
    (hlast : last.length = k) :
    work k f s₀ (xs ++ tail ++ last) = f (f s (buf ++ tail)) last := by
  obtain ⟨done, hxs, hdvd, hs⟩ := h.split
  have hk : 0 < k := Nat.zero_lt_of_lt h.room
  have hmore : k ∣ (xs ++ tail).length := by
    rw [hxs, List.append_assoc, List.length_append, hlen]
    exact Nat.dvd_add hdvd (Nat.dvd_refl k)
  rw [work_append hk hmore hlast, h.close hlen]

end Fed

end Blocks
