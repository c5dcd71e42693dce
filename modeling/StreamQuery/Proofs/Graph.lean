import Mathlib.Data.List.Nodup
import StreamQuery.Proofs.SortedMap
import StreamQuery.Proofs.Term

/-! # Looking up properties in graphs

Nodes and objects are told apart by their texts. So a look-up by text finds exactly the objects of the
triples with the node and the property, each of them once.
-/

namespace StreamQuery

/-! ## Texts of nodes and objects -/

theorem Node.text_injective {a b : Node} (h : a.text = b.text) : a = b := by
  have hlist := congrArg String.toList h
  cases a with
  | iri i =>
      cases b with
      | iri j => exact congrArg Node.iri (Iri.bracketed_injective h)
      | blank label => simp [text, Iri.bracketed] at hlist
  | blank label =>
      cases b with
      | iri j => simp [text, Iri.bracketed] at hlist
      | blank label' => exact congrArg Node.blank (by simpa [text] using h)

theorem Object.text_injective {a b : Object} (h : a.text = b.text) : a = b := by
  have hquote : ∀ (node : Node) (literal : Literal), node.text ≠ literal.text := by
    intro node literal heq
    have hlist := congrArg String.toList heq
    rw [Literal.toList_text] at hlist
    cases node <;> simp [Node.text, Iri.bracketed, Literal.quoted] at hlist
  cases a with
  | node a =>
      cases b with
      | node b => exact congrArg Object.node (Node.text_injective h)
      | literal b => exact absurd h (hquote a b)
  | literal a =>
      cases b with
      | node b => exact absurd h.symm (hquote b a)
      | literal b => exact congrArg Object.literal (Literal.text_injective h)

namespace Graph

variable {graph : Graph} {node : Node} {property : Iri} {object : Object}

theorem mem_add {triple added : Triple} :
    triple ∈ (graph.add added).triples ↔ triple = added ∨ triple ∈ graph.triples := by
  unfold add
  split
  · next hmem =>
    constructor
    · exact .inr
    · rintro (rfl | h)
      · exact hmem
      · exact h
  · exact List.mem_cons

/-! ## Objects of a property -/

theorem mem_listed_iff {subject : String} : object ∈ graph.listed subject property ↔
    ∃ node : Node, node.text = subject ∧ ⟨node, property, object⟩ ∈ graph.triples := by
  unfold listed
  rw [List.mem_filterMap]
  constructor
  · rintro ⟨⟨node, predicate, value⟩, hmem, hfound⟩
    split at hfound
    · next hmatch =>
      obtain ⟨rfl, hsubject⟩ := hmatch
      cases hfound
      exact ⟨node, hsubject, hmem⟩
    · cases hfound
  · rintro ⟨node, rfl, hmem⟩
    exact ⟨_, hmem, if_pos ⟨rfl, rfl⟩⟩

theorem mem_listed :
    object ∈ graph.listed node.text property ↔ ⟨node, property, object⟩ ∈ graph.triples := by
  rw [mem_listed_iff]
  constructor
  · rintro ⟨subject, hsubject, hmem⟩
    rwa [← Node.text_injective hsubject]
  · intro hmem
    exact ⟨node, rfl, hmem⟩

theorem nodup_listed (graph : Graph) (subject : String) (property : Iri) :
    (graph.listed subject property).Nodup := by
  unfold listed
  apply graph.distinct.filterMap
  intro a b value ha hb
  split at ha
  · next hmatch =>
    split at hb
    · next hmatch' =>
      obtain ⟨subject, predicate, object⟩ := a
      obtain ⟨subject', predicate', object'⟩ := b
      obtain rfl := hmatch.1.trans hmatch'.1.symm
      obtain rfl := Node.text_injective (hmatch.2.trans hmatch'.2.symm)
      cases ha
      cases hb
      rfl
    · cases hb
  · cases ha

/-- A look-up finds what a listing has, in another order. -/
theorem objects_perm_listed (graph : Graph) (subject : String) (property : Iri) :
    (graph.objects subject property).Perm (graph.listed subject property) :=
  List.mergeSort_perm _ _

theorem mem_objects :
    object ∈ graph.objects node.text property ↔ ⟨node, property, object⟩ ∈ graph.triples := by
  rw [(objects_perm_listed _ _ _).mem_iff, mem_listed]

theorem any_objects (graph : Graph) (subject : String) (predicate : Iri) (p : Object → Bool) :
    (graph.objects subject predicate).any p = graph.triples.any fun triple =>
      decide (triple.predicate = predicate ∧ triple.subject.text = subject) && p triple.object := by
  rw [(objects_perm_listed _ _ _).any_eq, listed, List.any_filterMap]
  refine congrArg _ (funext fun triple => ?_)
  by_cases hmatch : triple.predicate = predicate ∧ triple.subject.text = subject
  · rw [if_pos hmatch, decide_eq_true hmatch, Bool.true_and]
  · rw [if_neg hmatch, decide_eq_false hmatch, Bool.false_and]

/-- The objects of a property are listed in some order. -/
theorem listed_perm {objects : List Object} (hnodup : objects.Nodup)
    (h : ∀ object, ⟨node, property, object⟩ ∈ graph.triples ↔ object ∈ objects) :
    (graph.listed node.text property).Perm objects := by
  rw [List.perm_ext_iff_of_nodup (graph.nodup_listed node.text property) hnodup]
  intro object
  rw [mem_listed, h]

/-- The objects of a property are found in some order. -/
theorem objects_perm {objects : List Object} (hnodup : objects.Nodup)
    (h : ∀ object, ⟨node, property, object⟩ ∈ graph.triples ↔ object ∈ objects) :
    (graph.objects node.text property).Perm objects :=
  (objects_perm_listed _ _ _).trans (listed_perm hnodup h)

theorem object?_eq_some
    (h : ∀ value, ⟨node, property, value⟩ ∈ graph.triples ↔ value = object) :
    graph.object? node.text property = some object := by
  have hperm : (graph.objects node.text property).Perm [object] :=
    objects_perm (List.nodup_singleton object) (by simpa using h)
  rw [object?, List.perm_singleton.mp hperm]
  rfl

theorem object?_eq_none (h : ∀ value, ⟨node, property, value⟩ ∉ graph.triples) :
    graph.object? node.text property = none := by
  have hperm : (graph.objects node.text property).Perm [] :=
    objects_perm List.nodup_nil (by simpa using h)
  rw [object?, List.perm_nil.mp hperm]
  rfl

/-! ## Nodes with an object -/

theorem mem_subjects {text : String} :
    text ∈ graph.subjects property object.text ↔
      ∃ node : Node, node.text = text ∧ ⟨node, property, object⟩ ∈ graph.triples := by
  unfold subjects
  rw [mem_sortedNames, List.mem_filterMap]
  constructor
  · rintro ⟨⟨subject, predicate, value⟩, hmem, hfound⟩
    split at hfound
    · next hmatch =>
      obtain ⟨rfl, hobject⟩ := hmatch
      cases hfound
      obtain rfl := Object.text_injective hobject
      exact ⟨subject, rfl, hmem⟩
    · cases hfound
  · rintro ⟨node, rfl, hmem⟩
    exact ⟨_, hmem, if_pos ⟨rfl, rfl⟩⟩

theorem subjects_eq_singleton
    (h : ∀ subject, ⟨subject, property, object⟩ ∈ graph.triples ↔ subject = node) :
    graph.subjects property object.text = [node.text] := by
  have hperm : (graph.subjects property object.text).Perm [node.text] := by
    have hnodup : (graph.subjects property object.text).Nodup := nodup_sortedNames _
    rw [List.perm_ext_iff_of_nodup hnodup (List.nodup_singleton _)]
    intro text
    rw [mem_subjects]
    simp [h, eq_comm]
  exact List.perm_singleton.mp hperm

theorem subjects_eq_nil (h : ∀ subject, ⟨subject, property, object⟩ ∉ graph.triples) :
    graph.subjects property object.text = [] := by
  apply List.eq_nil_iff_forall_not_mem.mpr
  intro text hmem
  obtain ⟨subject, -, htriple⟩ := mem_subjects.mp hmem
  exact h subject htriple

end Graph

end StreamQuery
