import Mathlib.Data.List.Basic

/-!
# Streams of frames

A stream is the concatenation of nonempty frames, and what has arrived of it is a prefix.
Such a prefix consists of complete frames and of a proper part of the next one
(`exists_complete`).  `pending fs n` is the length of that part when `n` elements have
arrived.
-/

namespace Frames

variable {α : Type*}

/-- How many of the first `n` elements of the stream belong to a frame that is not complete. -/
def pending : List (List α) → Nat → Nat
  | [], n => n
  | f :: fs, n => if f.length ≤ n then pending fs (n - f.length) else n

/-- A proper part of the first frame, or nothing. -/
def PartOf (part : List α) (fs : List (List α)) : Prop :=
  part = [] ∨ ∃ f fs' rest, fs = f :: fs' ∧ part ++ rest = f ∧ rest ≠ []

theorem pending_append : ∀ (fs fs' : List (List α)) (n : Nat),
    pending (fs ++ fs') (fs.flatten.length + n) = pending fs' n
  | [], fs', n => by simp
  | f :: fs, fs', n => by
      rw [List.cons_append, pending, if_pos (by simp; omega), List.flatten_cons,
        List.length_append, Nat.add_assoc, Nat.add_sub_cancel_left, pending_append fs fs' n]

theorem PartOf.pending {part : List α} {fs : List (List α)} (h : PartOf part fs)
    (hne : ∀ f ∈ fs, f ≠ []) : pending fs part.length = part.length := by
  cases fs with
  | nil => rfl
  | cons g gs =>
      rcases h with rfl | ⟨f, fs', rest, heq, rfl, hrest⟩
      · have hg : 0 < g.length := List.length_pos_iff.mpr (hne g List.mem_cons_self)
        simp only [List.length_nil, Frames.pending]
        rw [if_neg (by omega)]
      · cases heq
        have hpos : 0 < rest.length := List.length_pos_iff.mpr hrest
        rw [Frames.pending, if_neg (by simp; omega)]

/-- What has arrived: some frames, and a proper part of the next. -/
theorem exists_complete : ∀ (fs : List (List α)) {x rest : List α}, x ++ rest = fs.flatten →
    ∃ fs₁ fs₂ part, fs = fs₁ ++ fs₂ ∧ x = fs₁.flatten ++ part ∧ PartOf part fs₂
  | [], x, rest, h => by
      obtain ⟨rfl, rfl⟩ := List.append_eq_nil_iff.mp h
      exact ⟨[], [], [], rfl, rfl, .inl rfl⟩
  | f :: fs, x, rest, h => by
      rw [List.flatten_cons] at h
      rcases List.append_eq_append_iff.mp h with ⟨y, rfl, hy⟩ | ⟨y, rfl, hy⟩
      · rcases y with _ | ⟨b, y⟩
        · exact ⟨[x], fs, [], by simp, by simp, .inl rfl⟩
        · exact ⟨[], (x ++ b :: y) :: fs, x, rfl, rfl, .inr ⟨_, fs, b :: y, rfl, rfl, by simp⟩⟩
      · obtain ⟨fs₁, fs₂, part, rfl, rfl, hpart⟩ := exists_complete fs hy.symm
        exact ⟨f :: fs₁, fs₂, part, rfl, by simp, hpart⟩

/-- Of a stream that is there as a whole nothing is pending. -/
theorem PartOf.eq_nil {part : List α} {fs : List (List α)} (h : PartOf part fs)
    (hall : part = fs.flatten) : part = [] := by
  rcases h with rfl | ⟨f, fs', rest, rfl, rfl, hrest⟩
  · rfl
  · have hlen := congrArg List.length hall
    have hpos : 0 < rest.length := List.length_pos_iff.mpr hrest
    simp only [List.flatten_cons, List.length_append] at hlen
    omega

/-- The first delimiter of a list is in one place. -/
theorem delimited_inj {d : α} : ∀ {x x' y y' : List α}, x ++ d :: y = x' ++ d :: y' → d ∉ x →
    d ∉ x' → x = x' ∧ y = y'
  | [], [], y, y', h, _, _ => by
      cases h
      exact ⟨rfl, rfl⟩
  | [], b :: x', y, y', h, _, hx' => by
      cases h
      exact absurd List.mem_cons_self hx'
  | a :: x, [], y, y', h, hx, _ => by
      cases h
      exact absurd List.mem_cons_self hx
  | a :: x, b :: x', y, y', h, hx, hx' => by
      rw [List.cons_append, List.cons_append, List.cons.injEq] at h
      obtain ⟨rfl, hrest⟩ := h
      obtain ⟨rfl, hy⟩ := delimited_inj hrest (fun hd => hx (List.mem_cons_of_mem _ hd))
        fun hd => hx' (List.mem_cons_of_mem _ hd)
      exact ⟨rfl, hy⟩

end Frames
