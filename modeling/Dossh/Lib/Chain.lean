import Mathlib.Data.List.Nodup

/-!
# Chains of handlers

A handler passes a call on to the one that was there before it, and so on down to a base.  `Leads`
says which handlers a call visits.  A handler is put in front of a chain and taken from the front
again, and neither disturbs the chain below it.
-/

namespace Chain

variable {P : Type*} {link link' : P → Option P} {base p q : P} {ps qs : List P}

/-- A call at `p` visits `ps` and then the base. -/
inductive Leads (link : P → Option P) (base : P) : P → List P → Prop where
  | base : Leads link base base []
  | pass {p q : P} {ps : List P} (hne : p ≠ base) (hlink : link p = some q)
      (hrest : Leads link base q ps) : Leads link base p (p :: ps)

namespace Leads

theorem nil_iff : Leads link base p [] ↔ p = base := by
  constructor
  · intro h
    cases h
    rfl
  · rintro rfl
    exact .base

theorem cons_iff : Leads link base p (q :: qs) ↔
    q = p ∧ p ≠ base ∧ ∃ r, link p = some r ∧ Leads link base r qs := by
  constructor
  · intro h
    cases h with
    | pass hne hlink hrest => exact ⟨rfl, hne, _, hlink, hrest⟩
  · rintro ⟨rfl, hne, r, hlink, hrest⟩
    exact .pass hne hlink hrest

/-- A call visits the same handlers every time. -/
theorem unique (h : Leads link base p ps) (h' : Leads link base p qs) : ps = qs := by
  induction h generalizing qs with
  | base =>
      cases h' with
      | base => rfl
      | pass hne hlink hrest => exact absurd rfl hne
  | pass hne hlink hrest ih =>
      cases h' with
      | base => exact absurd rfl hne
      | pass _ hlink' hrest' =>
          rw [hlink, Option.some.injEq] at hlink'
          subst hlink'
          rw [ih hrest']

/-- Only the links of the handlers that are visited matter. -/
theorem congr (h : Leads link base p ps) (heq : ∀ q ∈ ps, link' q = link q) :
    Leads link' base p ps := by
  induction h with
  | base => exact .base
  | pass hne hlink hrest ih =>
      refine .pass hne ?_ (ih fun q hq => heq q (List.mem_cons_of_mem _ hq))
      rw [heq _ List.mem_cons_self, hlink]

theorem linked (h : Leads link base p ps) : ∀ q ∈ ps, ∃ r, link q = some r := by
  induction h with
  | base => simp
  | pass hne hlink hrest ih =>
      intro q hq
      rcases List.mem_cons.mp hq with rfl | hq
      · exact ⟨_, hlink⟩
      · exact ih q hq

/-- From every handler on the chain the call goes on along the chain. -/
theorem from_mem (h : Leads link base p ps) (hq : q ∈ ps) :
    ∃ front back, ps = front ++ q :: back ∧ Leads link base q (q :: back) := by
  induction h with
  | base => cases hq
  | @pass p r ps hne hlink hrest ih =>
      rcases List.mem_cons.mp hq with rfl | hq
      · exact ⟨[], ps, rfl, .pass hne hlink hrest⟩
      · obtain ⟨front, back, heq, hback⟩ := ih hq
        exact ⟨p :: front, back, by rw [heq, List.cons_append], hback⟩

/-- No handler is visited twice. -/
theorem nodup (h : Leads link base p ps) : ps.Nodup := by
  induction h with
  | base => exact List.nodup_nil
  | @pass p r ps hne hlink hrest ih =>
      refine List.nodup_cons.mpr ⟨fun hmem => ?_, ih⟩
      -- the call would visit all of `p :: ps` again
      obtain ⟨front, back, heq, hback⟩ := hrest.from_mem hmem
      have hsame := hback.unique (.pass hne hlink hrest)
      have hlen := congrArg List.length hsame
      rw [heq] at hlen
      simp only [List.length_cons, List.length_append] at hlen
      omega

end Leads

end Chain
