import Mathlib.Data.List.Basic

/-!
# Histories

A history is a list of events with the newest event first.  `Always P h` says
that every event of the history satisfied `P` of the events before it.  It is
kept when an event that satisfies `P` is recorded, so a safety property of a
run is an invariant of its last history.
-/

namespace History

variable {ε : Type*}

/-- Every event of the history satisfies `P` of the events older than it. -/
def Always (P : ε → List ε → Prop) : List ε → Prop
  | [] => True
  | e :: past => P e past ∧ Always P past

@[simp] theorem always_nil (P : ε → List ε → Prop) : Always P [] := trivial

@[simp] theorem always_cons (P : ε → List ε → Prop) (e : ε) (past : List ε) :
    Always P (e :: past) ↔ P e past ∧ Always P past := Iff.rfl

/-- What `Always` says of one event, named by the part of the history it ends. -/
theorem Always.at {P : ε → List ε → Prop} {e : ε} {past : List ε} :
    ∀ {h : List ε}, Always P h → (e :: past) <:+ h → P e past
  | [], _, hs => by simp at hs
  | e' :: h, ha, hs => by
      rcases List.suffix_cons_iff.mp hs with heq | hs'
      · cases heq
        exact ha.1
      · exact ha.2.at hs'

/-- The converse: a property of every event and its past. -/
theorem always_of {P : ε → List ε → Prop} :
    ∀ {h : List ε}, (∀ e past, (e :: past) <:+ h → P e past) → Always P h
  | [], _ => trivial
  | _ :: _, hp =>
      ⟨hp _ _ (List.suffix_refl _),
        always_of fun e past hs => hp e past (hs.trans (List.suffix_cons _ _))⟩

end History
