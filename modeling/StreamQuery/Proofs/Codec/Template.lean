import Mathlib.Data.List.Pairwise
import StreamQuery.Proofs.Codec.Parts
import StreamQuery.Proofs.Codec.Survival
import StreamQuery.Proofs.Template.Declared
import StreamQuery.Proofs.Template.Library

/-! # Templates through graphs and back

A node of one part is in no other part, so a graph that is made of parts says of it what the part does.
Each template is read from its own part, whatever the other parts are.
-/

namespace StreamQuery

/-- What must hold of a template for a graph to give it back: the text of its body is read as the body,
and the names of its arguments are in order. -/
structure Template.Readable (template : Template) : Prop where
  body : template.body.Readable
  arguments : template.Ordered

theorem Iri.templateKey_bracketed (iri : Iri) : Graph.templateKey iri.bracketed = iri.bracketed := by
  rw [Graph.templateKey, if_pos]
  rw [iri.toList_bracketed]
  rfl

theorem Iri.templateKey_text (iri : Iri) : Graph.templateKey iri.text = iri.bracketed := by
  rw [Graph.templateKey, if_neg, bracketed]
  intro hopen
  exact absurd (iri.isIriChar_of_mem '<' (List.mem_of_mem_head? hopen)) (by decide)

/-- The encoding of a part, in the graph that the part belongs to. -/
def TemplatePart.within (part : TemplatePart) (graph : Graph) : Encoding :=
  { part.encoding with graph := graph }

namespace Graph.MadeOf

open Encoding (Grows)

variable {graph : Graph} {parts : List TemplatePart} {part : TemplatePart} (h : graph.MadeOf parts)
  (hpart : part ∈ parts)

section

include h hpart

/-- A graph says of a node what the part of the node does. -/
theorem says_iff {i : Nat} (hi : i < part.encoding.next) {property : Iri} {object : Object} :
    (part.within graph).Says i property object ↔ part.encoding.Says i property object := by
  constructor
  · intro htold
    obtain ⟨other, hother, htriple | ⟨hsubject, -⟩⟩ := (h.triples _).mp htold
    · obtain ⟨j, hj, hlabel⟩ := other.sound.owned _ htriple _ rfl
      by_cases heq : part = other
      · rw [heq] at htriple ⊢
        exact htriple
      · have hapart := h.apart.forall hpart hother heq
        exact absurd hlabel (hapart i hi j hj)
    · cases hsubject
  · exact fun htold => (h.triples _).mpr ⟨part, hpart, .inl htold⟩

/-- The other parts do not change what is known of a part. -/
theorem grows (n : Nat) : Grows n part.encoding (part.within graph) where
  supply := rfl
  next := Nat.le_refl _
  same _ hi _ _ _ := h.says_iff hpart hi
  labels _ _ _ := Iff.rfl

theorem readable : (part.within graph).Readable where
  distinct := part.sound.distinct
  named name label hlabel := by
    obtain ⟨i, hi, heq, hhas⟩ := part.sound.named name label hlabel
    exact ⟨i, heq, hhas.grows (h.grows hpart (i + 1)) hi (Nat.ne_of_lt (Nat.lt_succ_self i))⟩

/-- A graph says of a handle what the part of its template does. -/
theorem describes : graph.Describes (.iri part.template.handle) part.properties where
  keys := by
    change [Vocabulary.rdfType, Vocabulary.templateBody, Vocabulary.rdfsLabel, Vocabulary.rdfsComment,
      Vocabulary.templateConstraint].Nodup
    decide
  holds property object := by
    constructor
    · intro htriple
      obtain ⟨other, hother, htold | ⟨hsubject, htold⟩⟩ := (h.triples _).mp htriple
      · obtain ⟨label, hblank⟩ := other.blank _ htold
        cases hblank
      · have heq := List.inj_on_of_nodup_map h.handles hpart hother (Node.iri.inj hsubject)
        rwa [heq]
    · exact fun htold => (h.triples _).mpr ⟨part, hpart, .inr ⟨rfl, htold⟩⟩

/-! ## Reading a template -/

/-- The nodes of the arguments are read as the arguments, in the order of their texts. -/
theorem arguments_eq (harguments : part.template.Ordered) : ∃ arguments,
    (graph.objects part.template.handle.bracketed Vocabulary.templateConstraint).mapM
      (fun node => graph.argument node.text) = .ok arguments ∧
    arguments.Perm part.template.arguments := by
  have hread := h.readable hpart
  have hnodes : List.Forall₂
      (fun argument i => graph.argument ((part.within graph).nodeText i) = .ok argument)
      part.template.arguments part.nodes :=
    ((List.forall₂_and_left _ _).mpr ⟨harguments.names, part.arguments⟩).imp
      fun argument i ⟨hname, hargument⟩ =>
      (hargument.grows part.sound (h.grows hpart _) (Nat.ne_of_lt hargument.1)).argument_eq hread hname
  have hobjects : ∀ object,
      ⟨.iri part.template.handle, Vocabulary.templateConstraint, object⟩ ∈ graph.triples ↔
        object ∈ part.nodes.map fun i => .ofBlank (part.encoding.supply i) :=
    (h.describes hpart).mem_iff _ (by simp [TemplatePart.properties, Template.properties])
  obtain ⟨arguments, hfound, hperm⟩ := Encoding.exists_read hread hnodes harguments.nodup.of_map hobjects
  exact ⟨arguments, mapM_eq_ok_iff.mpr hfound, hperm⟩

theorem body_eq (hreadable : part.template.body.Readable) : ∃ object windows,
    graph.required part.template.handle.bracketed Vocabulary.templateBody = .ok object ∧
      graph.query object.text = .ok { part.template.body with windows := windows } ∧
      windows.Perm part.template.body.windows := by
  obtain ⟨found, htext, hbody⟩ := hreadable.text
  have hquery := part.body.grows part.sound (h.grows hpart _) (part.body.lt part.sound)
  obtain ⟨windows, hread, hperm⟩ :=
    hquery.query_eq_of_text (h.readable hpart) hreadable.names htext hbody
  refine ⟨.ofBlank (part.encoding.supply 0), windows, ?_, hread, hperm⟩
  have hobject := (h.describes hpart).object?_eq Vocabulary.templateBody
    (some (.ofBlank (part.encoding.supply 0))) (by simp [TemplatePart.properties, Template.properties])
  rw [Graph.required, show part.template.handle.bracketed = (Node.iri part.template.handle).text from rfl,
    hobject]

theorem templateHandle_eq :
    graph.templateHandle part.template.handle.bracketed = .ok part.template.handle := by
  refine Graph.templateHandle_eq_ok_iff.mpr ⟨?_, part.template.handle.trimRight_bracketed.symm⟩
  have htypes := (h.describes hpart).mem_iff Vocabulary.rdfType
    (show _ ∈ part.properties from List.mem_cons_self) (.ofIri Vocabulary.templateClass)
  rw [Graph.hasType, List.contains_iff_mem]
  exact Graph.mem_objects.mpr (htypes.mpr List.mem_cons_self)

/-- A template is read from its part of a graph. -/
theorem exists_template (hreadable : part.template.Readable) {handle : String}
    (hkey : templateKey handle = part.template.handle.bracketed) :
    ∃ copy, graph.template handle = .ok copy ∧ copy.sameAs part.template := by
  obtain ⟨object, windows, hobject, hbody, hwindows⟩ := h.body_eq hpart hreadable.body
  obtain ⟨arguments, harguments, hperm⟩ := h.arguments_eq hpart hreadable.arguments
  have hsorted := Template.sortArguments_of_perm hperm hreadable.arguments.ascending
  have hlabel := (h.describes hpart).literalValue?_eq Vocabulary.rdfsLabel part.template.label
    (by simp [TemplatePart.properties, Template.properties])
  have hcomment := (h.describes hpart).literalValue?_eq Vocabulary.rdfsComment part.template.comment
    (by simp [TemplatePart.properties, Template.properties])
  refine ⟨{ part.template with body := { part.template.body with windows := windows } }, ?_, ?_⟩
  · refine Graph.template_eq_ok_iff.mpr ?_
    rw [hkey]
    exact ⟨h.templateHandle_eq hpart, ⟨object, hobject, hbody⟩, ⟨arguments, harguments, hsorted.symm⟩,
      hlabel.symm, hcomment.symm⟩
  · simp [Template.sameAs, Query.sameAs_of_perm hwindows]

end

/-! ## Reading all templates -/

include h

/-- The templates of a graph are those of its parts. -/
theorem mem_templateHandles {key : String} :
    key ∈ graph.templateHandles ↔ ∃ part ∈ parts, part.template.handle.bracketed = key := by
  refine (@mem_subjects graph _ (.ofIri Vocabulary.templateClass) key).trans ⟨?_, ?_⟩
  · rintro ⟨node, rfl, htriple⟩
    obtain ⟨part, hpart, htold | ⟨rfl, -⟩⟩ := (h.triples _).mp htriple
    · -- no blank node has the class of templates
      obtain ⟨type, htype, heq⟩ := part.classes _ htold rfl
      rw [← Node.iri.inj (Object.node.inj heq)] at htype
      exact absurd htype (by decide)
    · exact ⟨part, hpart, rfl⟩
  · rintro ⟨part, hpart, rfl⟩
    refine ⟨.iri part.template.handle, rfl, ?_⟩
    exact ((h.describes hpart).mem_iff Vocabulary.rdfType
      (show _ ∈ part.properties from List.mem_cons_self) _).mpr List.mem_cons_self

theorem length_templateHandles : graph.templateHandles.length = parts.length := by
  have hkeys : (parts.map (·.template.handle.bracketed)).Nodup := by
    have hmap := h.handles.map (f := Iri.bracketed) fun _ _ => Iri.bracketed_injective
    rwa [List.map_map] at hmap
  have hhandles : graph.templateHandles.Nodup := nodup_sortedNames _
  have hperm : graph.templateHandles.Perm (parts.map (·.template.handle.bracketed)) :=
    (List.perm_ext_iff_of_nodup hhandles hkeys).mpr fun key =>
      h.mem_templateHandles.trans List.mem_map.symm
  rw [hperm.length_eq, List.length_map]

/-- All templates are read from a graph, each from its own part, and nothing else is. -/
theorem exists_templates (hreadable : ∀ part ∈ parts, part.template.Readable) :
    ∃ copies, graph.templates = .ok copies ∧ copies.length = parts.length ∧
      (∀ part ∈ parts, ∃ copy ∈ copies, copy.sameAs part.template) ∧
      ∀ copy ∈ copies, ∃ part ∈ parts, copy.sameAs part.template := by
  have hread : ∀ part ∈ parts, ∃ copy, graph.template part.template.handle.bracketed = .ok copy ∧
      copy.sameAs part.template := fun part hpart =>
    h.exists_template hpart (hreadable part hpart) part.template.handle.templateKey_bracketed
  have hall : ∀ key ∈ graph.templateHandles, ∃ copy, graph.template key = .ok copy := by
    intro key hkey
    obtain ⟨part, hpart, rfl⟩ := h.mem_templateHandles.mp hkey
    obtain ⟨copy, hcopy, -⟩ := hread part hpart
    exact ⟨copy, hcopy⟩
  obtain ⟨copies, hcopies⟩ := (exists_mapM_eq_ok_iff _).mpr hall
  have hrelated := mapM_eq_ok_iff.mp hcopies
  refine ⟨copies, hcopies, hrelated.length_eq.symm.trans h.length_templateHandles, fun part hpart => ?_,
    fun copy hcopy => ?_⟩
  · obtain ⟨copy, hcopy, hsame⟩ := hread part hpart
    obtain ⟨found, hfound, hresult⟩ :=
      exists_of_mem_left hrelated (h.mem_templateHandles.mpr ⟨part, hpart, rfl⟩)
    cases hcopy.symm.trans hresult
    exact ⟨copy, hfound, hsame⟩
  · obtain ⟨key, hkey, hresult⟩ := exists_of_mem_right hrelated hcopy
    obtain ⟨part, hpart, rfl⟩ := h.mem_templateHandles.mp hkey
    obtain ⟨found, hfound, hsame⟩ := hread part hpart
    cases hfound.symm.trans hresult
    exact ⟨part, hpart, hsame⟩

end Graph.MadeOf

end StreamQuery
