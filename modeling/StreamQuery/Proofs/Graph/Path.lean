import Mathlib.Logic.Relation
import Mathlib.Tactic.ByContra
import StreamQuery.Graph.TriplePattern

/-! # Where paths lead

A path of properties is a relation between the objects of a graph, and following it finds exactly the
objects that it is related to, in either direction. A path that is taken any number of times is followed
step by step: each step that finds anything leaves fewer objects of the graph to be found, so that the
search has found all of them before it stops, also on cycles.
-/

namespace StreamQuery

namespace Graph

/-! ## Search -/

section Search

variable {next : Object → List Object} {domain reached latest : List Object} {start a b : Object}
  {steps : Nat}

/-- The objects of a list that have not been reached. -/
def missing (domain reached : List Object) : List Object := domain.filter (!reached.contains ·)

theorem mem_missing : a ∈ missing domain reached ↔ a ∈ domain ∧ a ∉ reached := by
  simp [missing]

/-- More objects of the domain are reached with one that was missing. -/
theorem length_missing_lt {fresh : List Object} (hmem : a ∈ domain) (hnew : a ∉ reached)
    (hfresh : a ∈ fresh) :
    (missing domain (reached ++ fresh)).length < (missing domain reached).length := by
  have hfilter : missing domain (reached ++ fresh) =
      (missing domain reached).filter (!fresh.contains ·) := by
    rw [missing, missing, List.filter_filter]
    refine List.filter_congr fun b _ => ?_
    simp [Bool.and_comm]
  rw [hfilter, List.length_filter_lt_length_iff_exists]
  exact ⟨a, mem_missing.mpr ⟨hmem, hnew⟩, by simpa using hfresh⟩

/-- A search from an object: what was reached can be reached, it is closed under steps but for what was
reached last, and the steps that are left suffice for what is missing. -/
structure Searches (next : Object → List Object) (domain : List Object) (start : Object) (steps : Nat)
    (reached latest : List Object) : Prop where
  root : start ∈ reached
  reach : ∀ b ∈ reached, Relation.ReflTransGen (fun a b => b ∈ next a) start b
  latest_subset : latest ⊆ reached
  closed : ∀ a ∈ reached, a ∈ latest ∨ next a ⊆ reached
  bound : (missing domain reached).length ≤ steps

/-- What the objects that were reached last lead to, without what was reached before. -/
theorem mem_fresh : b ∈ ((latest.flatMap next).filter (!reached.contains ·)).eraseDups ↔
    (∃ a ∈ latest, b ∈ next a) ∧ b ∉ reached := by
  simp [List.mem_eraseDups]

/-- One more step, if it finds anything. -/
theorem Searches.step {fresh : List Object} (h : Searches next domain start (steps + 1) reached latest)
    (hdomain : ∀ a b, b ∈ next a → b = a ∨ b ∈ domain) (hne : fresh ≠ [])
    (hfresh : ∀ b, b ∈ fresh ↔ (∃ a ∈ latest, b ∈ next a) ∧ b ∉ reached) :
    Searches next domain start steps (reached ++ fresh) fresh where
  root := List.mem_append_left _ h.root
  reach b hb := by
    rcases List.mem_append.mp hb with hb | hb
    · exact h.reach b hb
    · obtain ⟨⟨a, ha, hstep⟩, -⟩ := (hfresh b).mp hb
      exact (h.reach a (h.latest_subset ha)).tail hstep
  latest_subset := List.subset_append_right _ _
  closed a ha := by
    rcases List.mem_append.mp ha with ha | ha
    · refine .inr fun b hb => ?_
      rcases h.closed a ha with hlatest | hclosed
      · by_cases hmem : b ∈ reached
        · exact List.mem_append_left _ hmem
        · exact List.mem_append_right _ ((hfresh b).mpr ⟨⟨a, hlatest, hb⟩, hmem⟩)
      · exact List.mem_append_left _ (hclosed hb)
    · exact .inl ha
  bound := by
    obtain ⟨b, hb⟩ := List.exists_mem_of_ne_nil fresh hne
    obtain ⟨⟨a, ha, hstep⟩, hnew⟩ := (hfresh b).mp hb
    have hmem : b ∈ domain := by
      rcases hdomain a b hstep with rfl | hmem
      · exact absurd (h.latest_subset ha) hnew
      · exact hmem
    have hlt := length_missing_lt hmem hnew hb
    have hbound := h.bound
    omega

/-- A search that finds nothing more has found everything. -/
theorem Searches.subset_of_nothing (h : Searches next domain start steps reached latest)
    (hnothing : ∀ b, (∃ a ∈ latest, b ∈ next a) → b ∈ reached) : ∀ a ∈ reached, next a ⊆ reached := by
  intro a ha
  rcases h.closed a ha with hlatest | hclosed
  · exact fun b hb => hnothing b ⟨a, hlatest, hb⟩
  · exact hclosed

/-- What a search ends with can be reached, and is closed under steps. -/
theorem Searches.spread (h : Searches next domain start steps reached latest)
    (hdomain : ∀ a b, b ∈ next a → b = a ∨ b ∈ domain) :
    start ∈ spread next steps reached latest ∧
      (∀ b ∈ spread next steps reached latest,
        Relation.ReflTransGen (fun a b => b ∈ next a) start b) ∧
      ∀ a ∈ spread next steps reached latest, next a ⊆ spread next steps reached latest := by
  induction steps generalizing reached latest with
  | zero =>
      refine ⟨h.root, h.reach, h.subset_of_nothing ?_⟩
      rintro b ⟨a, ha, hstep⟩
      by_contra hnew
      -- no object of the domain is missing any more
      have hnone : missing domain reached = [] := List.length_eq_zero_iff.mp (Nat.le_zero.mp h.bound)
      rcases hdomain a b hstep with rfl | hmem
      · exact hnew (h.latest_subset ha)
      · have hmissing := mem_missing.mpr ⟨hmem, hnew⟩
        rw [hnone] at hmissing
        cases hmissing
  | succ steps ih =>
      unfold Graph.spread
      split
      · next hnil =>
        refine ⟨h.root, h.reach, h.subset_of_nothing fun b hb => ?_⟩
        by_contra hnew
        have hmem := mem_fresh.mpr ⟨hb, hnew⟩
        rw [hnil] at hmem
        cases hmem
      · next fresh hne =>
        exact ih (h.step hdomain hne fun b => mem_fresh)

end Search

/-! ## Paths as relations -/

/-- Whether a path leads from one object to another. -/
def Leads (graph : Graph) : PropertyPath → Object → Object → Prop
  | .property iri, a, b =>
    ∃ triple ∈ graph.triples, triple.predicate = iri ∧ .node triple.subject = a ∧ triple.object = b
  | .excluding properties, a, b =>
    ∃ triple ∈ graph.triples, triple.predicate ∉ properties ∧ .node triple.subject = a ∧
      triple.object = b
  | .inverse path, a, b => graph.Leads path b a
  | .sequence first second, a, b => ∃ middle, graph.Leads first a middle ∧ graph.Leads second middle b
  | .choice first second, a, b => graph.Leads first a b ∨ graph.Leads second a b
  | .optional path, a, b => a = b ∨ graph.Leads path a b
  | .repeated path, a, b => Relation.ReflTransGen (graph.Leads path) a b

variable {graph : Graph} {a b : Object}

/-- The subjects and the objects of the triples. -/
def mentioned (graph : Graph) : List Object :=
  graph.triples.flatMap fun triple => [.node triple.subject, triple.object]

theorem mem_mentioned {triple : Triple} (h : triple ∈ graph.triples) :
    .node triple.subject ∈ graph.mentioned ∧ triple.object ∈ graph.mentioned :=
  ⟨List.mem_flatMap.mpr ⟨triple, h, by simp⟩, List.mem_flatMap.mpr ⟨triple, h, by simp⟩⟩

/-- A path stays in place or leads from one object of the graph to another. -/
theorem Leads.mentioned {path : PropertyPath} (h : graph.Leads path a b) :
    a = b ∨ (a ∈ graph.mentioned ∧ b ∈ graph.mentioned) := by
  induction path generalizing a b with
  | property iri =>
      obtain ⟨triple, hmem, -, rfl, rfl⟩ := h
      exact .inr (mem_mentioned hmem)
  | excluding properties =>
      obtain ⟨triple, hmem, -, rfl, rfl⟩ := h
      exact .inr (mem_mentioned hmem)
  | inverse path ih => exact (ih h).imp Eq.symm And.symm
  | sequence first second ihfirst ihsecond =>
      obtain ⟨middle, hfirst, hsecond⟩ := h
      rcases ihfirst hfirst with rfl | ⟨ha, -⟩
      · exact ihsecond hsecond
      · rcases ihsecond hsecond with rfl | ⟨-, hb⟩
        · exact ihfirst hfirst
        · exact .inr ⟨ha, hb⟩
  | choice first second ihfirst ihsecond => exact h.elim ihfirst ihsecond
  | optional path ih => exact h.elim .inl ih
  | repeated path ih =>
      change Relation.ReflTransGen (graph.Leads path) a b at h
      induction h with
      | refl => exact .inl rfl
      | tail _ hstep ihbefore =>
          rcases ihbefore with rfl | ⟨ha, hmiddle⟩
          · exact ih hstep
          · rcases ih hstep with rfl | ⟨-, hb⟩
            · exact .inr ⟨ha, hmiddle⟩
            · exact .inr ⟨ha, hb⟩

end Graph

end StreamQuery
