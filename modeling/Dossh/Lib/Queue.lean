import Mathlib.Data.List.Basic

/-!
# Bounded queues

A queue refuses an element when it is full and gives none when it is empty.  A run is recorded with
what was accepted and what was taken.  What the queue held at first and has accepted since is what
was taken from it and what it still holds, in this order.

`Represents` says that a machine of any kind carries out the operations of such a queue.  It then
does so over whole runs.
-/

namespace Queue

variable {α : Type*}

/-! ## The queue -/

inductive Op (α : Type*) where
  | push (x : α)
  | pop

/-- A queue, and what has passed its ends so far. -/
structure Log (α : Type*) where
  items : List α
  accepted : List α
  taken : List α

/-- A queue before its first operation. -/
def Log.start (items : List α) : Log α := ⟨items, [], []⟩

def Log.step (cap : Nat) (q : Log α) : Op α → Log α
  | .push x =>
      if q.items.length < cap then
        { q with items := q.items ++ [x], accepted := q.accepted ++ [x] }
      else q
  | .pop =>
      match q.items with
      | [] => q
      | x :: items => { q with items := items, taken := q.taken ++ [x] }

def Log.run (cap : Nat) (q : Log α) (ops : List (Op α)) : Log α := ops.foldl (Log.step cap) q

/-- Nothing is lost, doubled or moved. -/
def Log.Kept (first : List α) (q : Log α) : Prop := first ++ q.accepted = q.taken ++ q.items

namespace Log

variable {cap : Nat} {first : List α} {q : Log α}

theorem step_room (h : q.items.length < cap) (x : α) : q.step cap (.push x) =
    { q with items := q.items ++ [x], accepted := q.accepted ++ [x] } := if_pos h

theorem step_full (h : ¬ q.items.length < cap) (x : α) : q.step cap (.push x) = q := if_neg h

theorem step_empty (h : q.items = []) : q.step cap .pop = q := by
  rw [step, h]

theorem step_pop {x : α} {items : List α} (h : q.items = x :: items) :
    q.step cap .pop = { q with items := items, taken := q.taken ++ [x] } := by
  rw [step, h]

theorem Kept.start (items : List α) : (Log.start items).Kept items := List.append_nil items

theorem Kept.step (h : q.Kept first) (op : Op α) : (q.step cap op).Kept first := by
  unfold Kept at h ⊢
  cases op with
  | push x =>
      by_cases hroom : q.items.length < cap
      · rw [step_room hroom, ← List.append_assoc, h, List.append_assoc]
      · rw [step_full hroom, h]
  | pop =>
      cases hitems : q.items with
      | nil => rw [step_empty hitems, h]
      | cons x items => rw [step_pop hitems, h, hitems, List.append_assoc, List.singleton_append]

theorem Kept.run : ∀ {q : Log α} (ops : List (Op α)), q.Kept first → (q.run cap ops).Kept first
  | _, [], h => h
  | _, op :: ops, h => Kept.run ops (h.step op)

end Log

/-! ## Machines that are queues -/

/-- The machine `step` behaves as a queue of `cap` elements in the states that satisfy `inv`; `view`
is the queue that a state stands for. -/
structure Represents {σ ω : Type*} (step : σ → ω → σ) (inv : σ → Prop) (view : σ → Log α)
    (cap : Nat) (opOf : ω → Op α) : Prop where
  keeps : ∀ s op, inv s → inv (step s op)
  step : ∀ s op, inv s → view (step s op) = (view s).step cap (opOf op)

/-- A run of the machine is one of the queue. -/
theorem Represents.run {σ ω : Type*} {step : σ → ω → σ} {inv : σ → Prop} {view : σ → Log α}
    {cap : Nat} {opOf : ω → Op α} (h : Represents step inv view cap opOf) :
    ∀ (ops : List ω) {s : σ}, inv s → inv (ops.foldl step s) ∧
      view (ops.foldl step s) = (view s).run cap (ops.map opOf)
  | [], _, hinv => ⟨hinv, rfl⟩
  | op :: ops, s, hinv => by
      obtain ⟨hinv', hview⟩ := h.run ops (h.keeps s op hinv)
      refine ⟨hinv', hview.trans ?_⟩
      rw [h.step s op hinv]
      rfl

end Queue
