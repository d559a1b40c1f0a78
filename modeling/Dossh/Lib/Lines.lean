import Mathlib.Data.List.TakeWhile

/-!
# Lines and a short buffer

A text is a sequence of lines, each of which ends behind a separator; only the last may lack one.
A reader with a buffer of `k` cells takes at most `k` elements and stops behind a separator.  It
sees the lines of a text cut into pieces: `pieces_eq` says that it goes from line to line, and
`pieces_short` that it sees a short line as a whole.

A line is read word by word: a word is what satisfies a test, up to something that does not.
-/

namespace Lines

variable {α : Type*} {sep : α}

/-- A line, and what may follow it. -/
inductive Line (sep : α) : List α → List α → Prop where
  | last {x : List α} (hne : x ≠ []) (h : sep ∉ x) : Line sep x []
  | ended {x : List α} (h : sep ∉ x) (rest : List α) : Line sep (x ++ [sep]) rest

theorem Line.ne_nil {x rest : List α} (h : Line sep x rest) : x ≠ [] := by
  cases h with
  | last hne => exact hne
  | ended h => simp

/-- A line that is followed by nothing. -/
theorem Line.alone {x rest : List α} (h : Line sep x rest) : Line sep x [] := by
  cases h with
  | last hne hs => exact .last hne hs
  | ended hs => exact .ended hs []

/-- A line before less. -/
theorem Line.before {x rest more : List α} (h : Line sep x (rest ++ more)) : Line sep x rest := by
  generalize hall : rest ++ more = all at h
  cases h with
  | last hne hs =>
      rw [(List.append_eq_nil_iff.mp hall).1]
      exact .last hne hs
  | ended hs => exact .ended hs rest

/-! ## Words -/

section

variable {p : α → Bool} {w l : List α}

/-- No word begins here. -/
def Stops (p : α → Bool) (l : List α) : Prop := ∀ x, l.head? = some x → p x = false

theorem stops_dropWhile (p : α → Bool) (l : List α) : Stops p (l.dropWhile p) := by
  intro x hx
  have hhead := List.head?_dropWhile_not p l
  rw [hx] at hhead
  exact hhead

theorem Stops.dropWhile (h : Stops p l) : l.dropWhile p = l := by
  cases l with
  | nil => rfl
  | cons x l => rw [List.dropWhile_cons, h x rfl]; rfl

theorem Stops.takeWhile (h : Stops p l) : l.takeWhile p = [] := by
  cases l with
  | nil => rfl
  | cons x l => rw [List.takeWhile_cons, h x rfl]; rfl

/-- A word is taken as a whole. -/
theorem takeWhile_word (hw : ∀ x ∈ w, p x) (h : Stops p l) : (w ++ l).takeWhile p = w := by
  rw [List.takeWhile_append_of_pos hw, h.takeWhile, List.append_nil]

theorem dropWhile_word (hw : ∀ x ∈ w, p x) (h : Stops p l) : (w ++ l).dropWhile p = l := by
  rw [List.dropWhile_append_of_pos hw, h.dropWhile]

end

/-! ## Reads -/

variable [DecidableEq α]

/-- One read: at most `k` elements, up to the first separator. -/
def cut (sep : α) : Nat → List α → List α × List α
  | 0, l => ([], l)
  | _ + 1, [] => ([], [])
  | k + 1, a :: l =>
      if a = sep then ([a], l)
      else
        let r := cut sep k l
        (a :: r.1, r.2)
termination_by structural k => k

theorem cut_append (sep : α) : ∀ (k : Nat) (l : List α), (cut sep k l).1 ++ (cut sep k l).2 = l
  | 0, _ => rfl
  | _ + 1, [] => rfl
  | k + 1, a :: l => by
      rw [cut]
      split
      · rfl
      · exact congrArg (a :: ·) (cut_append sep k l)

/-- A read with room for one element takes one. -/
theorem length_cut_lt (sep : α) (k : Nat) {l : List α} (h : l ≠ []) :
    (cut sep (k + 1) l).2.length < l.length := by
  cases l with
  | nil => exact absurd rfl h
  | cons a l =>
      rw [cut]
      split
      · exact Nat.lt_succ_self _
      · have happ := congrArg List.length (cut_append sep k l)
        rw [List.length_append] at happ
        simp only [List.length_cons]
        omega

/-- What a reader with `k + 1` cells sees of a text. -/
def pieces (sep : α) (k : Nat) (l : List α) : List (List α) :=
  if h : l = [] then []
  else (cut sep (k + 1) l).1 :: pieces sep k (cut sep (k + 1) l).2
termination_by l.length
decreasing_by exact length_cut_lt sep k h

theorem pieces_nil (sep : α) (k : Nat) : pieces sep k [] = [] := by
  rw [pieces, dif_pos rfl]

theorem pieces_cons (k : Nat) {l : List α} (h : l ≠ []) :
    pieces sep k l = (cut sep (k + 1) l).1 :: pieces sep k (cut sep (k + 1) l).2 := by
  rw [pieces, dif_neg h]

/-- The lines of a text. -/
def lines (sep : α) : List α → List (List α)
  | [] => []
  | a :: l =>
      if a = sep then [a] :: lines sep l
      else
        match lines sep l with
        | [] => [[a]]
        | x :: xs => (a :: x) :: xs

/-- The lines make up the text, one after the other. -/
theorem lines_spec (sep : α) : ∀ (l : List α), (lines sep l).flatten = l ∧
    ∀ xs x ys, lines sep l = xs ++ x :: ys → Line sep x ys.flatten
  | [] => ⟨rfl, fun xs x ys h => by simp [lines] at h⟩
  | a :: l => by
      obtain ⟨hflat, hline⟩ := lines_spec sep l
      rw [lines]
      split
      next ha =>
        refine ⟨by rw [List.flatten_cons, hflat]; rfl, fun xs x ys h => ?_⟩
        cases xs with
        | nil =>
            obtain ⟨rfl, rfl⟩ := List.cons.inj h
            rw [ha]
            exact .ended (x := []) List.not_mem_nil _
        | cons y xs => exact hline xs x ys (List.cons.inj h).2
      next ha =>
        split
        next hnil =>
          have hl : l = [] := by rw [← hflat, hnil]; rfl
          refine ⟨by rw [hl]; rfl, fun xs x ys h => ?_⟩
          cases xs with
          | nil =>
              obtain ⟨rfl, rfl⟩ := List.cons.inj h
              refine .last (by simp) ?_
              rw [List.mem_singleton]
              exact fun hs => ha hs.symm
          | cons y xs => simp at h
        next y zs hcons =>
          rw [hcons] at hflat hline
          refine ⟨by rw [List.flatten_cons, List.cons_append, ← List.flatten_cons, hflat], ?_⟩
          intro xs x ys h
          cases xs with
          | nil =>
              obtain ⟨rfl, rfl⟩ := List.cons.inj h
              have hy := hline [] y zs rfl
              generalize zs.flatten = rest at hy
              cases hy with
              | last hne hs =>
                  refine .last (by simp) ?_
                  rw [List.mem_cons, not_or]
                  exact ⟨fun h => ha h.symm, hs⟩
              | @ended z hs =>
                  refine .ended (x := a :: z) ?_ rest
                  rw [List.mem_cons, not_or]
                  exact ⟨fun h => ha h.symm, hs⟩
          | cons z xs => exact hline (y :: xs) x ys (by rw [(List.cons.inj h).2]; rfl)

/-! ## Reading lines -/

theorem cut_nil (sep : α) : ∀ k : Nat, cut sep k [] = ([], [])
  | 0 => rfl
  | _ + 1 => rfl

theorem cut_other {a : α} (ha : a ≠ sep) (k : Nat) (l : List α) :
    cut sep (k + 1) (a :: l) = (a :: (cut sep k l).1, (cut sep k l).2) := by
  rw [cut, if_neg ha]

/-- A read that ends before the line does. -/
theorem cut_within : ∀ (k : Nat) {x : List α} (rest : List α), sep ∉ x → k ≤ x.length →
    cut sep k (x ++ rest) = (x.take k, x.drop k ++ rest)
  | 0, x, rest, _, _ => rfl
  | k + 1, [], rest, _, hk => absurd hk (Nat.not_succ_le_zero k)
  | k + 1, a :: x, rest, hx, hk => by
      rw [List.mem_cons, not_or] at hx
      rw [List.cons_append, cut_other (Ne.symm hx.1),
        cut_within k rest hx.2 (Nat.le_of_succ_le_succ hk)]
      rfl

/-- A read that gets to the end of the line. -/
theorem cut_beyond (k : Nat) : ∀ {x : List α} (rest : List α), sep ∉ x →
    cut sep (k + x.length) (x ++ rest) = (x ++ (cut sep k rest).1, (cut sep k rest).2)
  | [], rest, _ => rfl
  | a :: x, rest, hx => by
      rw [List.mem_cons, not_or] at hx
      have ih := cut_beyond k rest hx.2
      rw [List.length_cons, ← Nat.add_assoc, List.cons_append, cut_other (Ne.symm hx.1), ih]
      rfl

/-- A short line is read as a whole. -/
theorem Line.cut_short {x rest : List α} (h : Line sep x rest) {k : Nat} (hk : x.length ≤ k) :
    cut sep k (x ++ rest) = (x, rest) := by
  cases h with
  | last hne hs =>
      obtain ⟨j, rfl⟩ := Nat.exists_eq_add_of_le' hk
      rw [cut_beyond j [] hs, cut_nil, List.append_nil]
  | @ended x hs =>
      rw [List.length_append, List.length_singleton] at hk
      obtain ⟨j, rfl⟩ := Nat.exists_eq_add_of_le' hk
      rw [List.append_assoc, ← Nat.add_assoc, Nat.add_right_comm, cut_beyond (j + 1) _ hs,
        List.singleton_append, cut, if_pos rfl]

/-- Of a long line a part is read, and a line is left. -/
theorem Line.cut_long {x rest : List α} (h : Line sep x rest) {k : Nat} (hk : k < x.length) :
    cut sep k (x ++ rest) = (x.take k, x.drop k ++ rest) ∧ Line sep (x.drop k) rest := by
  cases h with
  | last hne hs =>
      refine ⟨cut_within k [] hs (Nat.le_of_lt hk), .last ?_ fun hmem => hs (List.mem_of_mem_drop hmem)⟩
      rw [ne_eq, List.drop_eq_nil_iff]
      omega
  | @ended x hs =>
      rw [List.length_append, List.length_singleton] at hk
      have hle : k ≤ x.length := by omega
      refine ⟨?_, ?_⟩
      · rw [List.append_assoc, cut_within k _ hs hle, List.take_append_of_le_length hle,
          List.drop_append_of_le_length hle, List.append_assoc]
      · rw [List.drop_append_of_le_length hle]
        exact .ended (fun hmem => hs (List.mem_of_mem_drop hmem)) rest

/-- A short line is one piece. -/
theorem pieces_short {x rest : List α} (h : Line sep x rest) {k : Nat} (hk : x.length ≤ k + 1) :
    pieces sep k x = [x] := by
  have hcut := h.alone.cut_short hk
  rw [List.append_nil] at hcut
  rw [pieces_cons k h.ne_nil, hcut, pieces_nil]

/-- The pieces of the first line come first. -/
theorem pieces_line (k : Nat) : ∀ (m : Nat) {x rest : List α}, x.length ≤ m → Line sep x rest →
    pieces sep k (x ++ rest) = pieces sep k x ++ pieces sep k rest
  | 0, x, rest, hm, h => absurd (List.length_eq_zero_iff.mp (Nat.le_zero.mp hm)) h.ne_nil
  | m + 1, x, rest, hm, h => by
      have hne : x ++ rest ≠ [] := List.append_ne_nil_of_left_ne_nil h.ne_nil rest
      rcases Nat.lt_or_ge (k + 1) x.length with hk | hk
      · obtain ⟨hcut, hleft⟩ := h.cut_long hk
        obtain ⟨hcut', -⟩ := h.alone.cut_long hk
        rw [List.append_nil, List.append_nil] at hcut'
        have hlen : (x.drop (k + 1)).length ≤ m := by
          rw [List.length_drop]
          omega
        rw [pieces_cons k hne, hcut, pieces_cons k h.ne_nil, hcut']
        exact congrArg (_ :: ·) (pieces_line k m hlen hleft)
      · rw [pieces_cons k hne, h.cut_short hk, pieces_short h hk]
        rfl

/-- The pieces of a text are the pieces of its lines. -/
theorem pieces_eq (k : Nat) : ∀ (ls : List (List α)),
    (∀ xs x ys, ls = xs ++ x :: ys → Line sep x ys.flatten) →
    pieces sep k ls.flatten = ls.flatMap (pieces sep k)
  | [], _ => pieces_nil sep k
  | x :: ls, h => by
      rw [List.flatten_cons, List.flatMap_cons, pieces_line k x.length (Nat.le_refl _) (h [] x ls rfl),
        pieces_eq k ls fun xs y ys hls => h (x :: xs) y ys (by rw [hls]; rfl)]

/-- The same for the first lines of a text. -/
theorem pieces_first (k : Nat) {l : List α} {ls : List (List α)} (h : ls <+: lines sep l) :
    pieces sep k ls.flatten = ls.flatMap (pieces sep k) := by
  obtain ⟨more, hmore⟩ := h
  refine pieces_eq k ls fun xs x ys hls => ?_
  have hline := (lines_spec sep l).2 xs x (ys ++ more) (by rw [← hmore, hls]; simp)
  rw [List.flatten_append] at hline
  exact hline.before

end Lines
