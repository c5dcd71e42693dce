import Mathlib.Data.Set.Function
import StreamQuery.Proofs.Codec.Encoded

/-! # The labels of blank nodes

What an encoder writes does not depend on the labels that its blank nodes get. Two runs with different
supplies of labels go side by side: `Renamed` relates their states and `Follows` their steps.
-/

namespace StreamQuery

/-! ## Graphs that differ in labels -/

/-- The label of a blank node. -/
def Node.label? : Node → Option String
  | iri _ => none
  | blank label => some label

/-- A node with another label, if it is blank. -/
def Node.rename (f : String → String) : Node → Node
  | iri value => iri value
  | blank label => blank (f label)

/-- The label of an object that is a blank node. -/
def Object.label? : Object → Option String
  | node value => value.label?
  | literal _ => none

/-- An object with another label, if it is a blank node. -/
def Object.rename (f : String → String) : Object → Object
  | node value => node (value.rename f)
  | literal value => literal value

namespace Triple

/-- The labels in a triple. -/
def labels (triple : Triple) : List String :=
  triple.subject.label?.toList ++ triple.object.label?.toList

/-- A triple with other labels. -/
def rename (f : String → String) (triple : Triple) : Triple :=
  ⟨triple.subject.rename f, triple.predicate, triple.object.rename f⟩

theorem rename_id (triple : Triple) : triple.rename id = triple := by
  obtain ⟨subject, predicate, object⟩ := triple
  cases subject with
  | iri value => rcases object with (_ | _) | _ <;> rfl
  | blank label => rcases object with (_ | _) | _ <;> rfl

end Triple

/-- Graphs that are the same up to the labels of their blank nodes. -/
def Graph.SameUpToLabels (a b : Graph) : Prop :=
  ∃ f : String → String, Set.InjOn f {label | ∃ triple ∈ a.triples, label ∈ triple.labels} ∧
    ∀ triple, triple ∈ b.triples ↔ ∃ original ∈ a.triples, triple = original.rename f

/-! ## Two runs side by side -/

/-- A supply of labels, and other labels in their place that can be told apart as well. The other run
may have taken nodes before. -/
structure Relabelling where
  supply : Nat → String
  map : String → String
  injective : Function.Injective (map ∘ supply)
  /-- The number of nodes that the other run has taken before. -/
  offset : Nat

/-- The classes of blank nodes. -/
def nodeClasses : List Iri :=
  Vocabulary.variableClass :: Vocabulary.argumentClass ::
    (QueryForm.all.map QueryForm.iri ++ WindowKind.all.map WindowKind.iri)

namespace Relabelling

variable (ρ : Relabelling)

/-- The labels of a supply. -/
def own : Set String := Set.range ρ.supply

theorem injOn_own : Set.InjOn ρ.map ρ.own := by
  rintro _ ⟨m, rfl⟩ _ ⟨n, rfl⟩ h
  rw [ρ.injective h]

/-- Labels of one supply in the place of those of another. -/
noncomputable def between (supply supply' : Nat → String) (h : Function.Injective supply)
    (h' : Function.Injective supply') : Relabelling where
  supply := supply
  map := supply' ∘ Function.invFun supply
  injective := by
    rw [Function.comp_assoc, Function.invFun_comp h, Function.comp_id]
    exact h'
  offset := 0

/-- A triple that is said of a blank node, with no other labels than those of the supply. -/
structure IsOwn (triple : Triple) : Prop where
  labels : ∀ label ∈ triple.labels, label ∈ ρ.own
  blank : ∃ label, triple.subject = .blank label
  classes : triple.predicate = Vocabulary.rdfType → ∃ type ∈ nodeClasses, triple.object = .ofIri type

/-- Encodings that have come equally far, one with the labels of a supply and the other one with the
labels in their place, behind triples that are there without the first one. -/
structure Relates (before : Set Triple) (e e' : Encoding) : Prop where
  supply : e.supply = ρ.supply
  supply' : ∀ i, e'.supply (ρ.offset + i) = ρ.map (ρ.supply i)
  next : e'.next = ρ.offset + e.next
  labels : ∀ name, e'.labels.get? name = (e.labels.get? name).map ρ.map
  known : ∀ name label, e.labels.get? name = some label → label ∈ ρ.own
  triples : ∀ triple, triple ∈ e'.graph.triples ↔
    triple ∈ before ∨ ∃ original ∈ e.graph.triples, triple = original.rename ρ.map
  owned : ∀ triple ∈ e.graph.triples, ρ.IsOwn triple

/-- A label of a supply and the one in its place. -/
def SameLabel (label label' : String) : Prop := label ∈ ρ.own ∧ label' = ρ.map label

/-- An object without other labels than those of a supply, and the object in its place. -/
def SameObject (object object' : Object) : Prop :=
  (∀ label ∈ object.label?, label ∈ ρ.own) ∧ object' = object.rename ρ.map

/-- Two steps that take related encodings to related encodings, with related values. -/
def Follows {α β : Type} (r : α → β → Prop) (x : Encoder α) (y : Encoder β) : Prop :=
  ∀ before e e', ρ.Relates before e e' →
    r (x.run e).1 (y.run e').1 ∧ ρ.Relates before (x.run e).2 (y.run e').2

/-- Two steps that take related encodings to related encodings. -/
abbrev Both (x y : Encoder Unit) : Prop := ρ.Follows (fun _ _ => True) x y

variable {ρ}

theorem SameObject.ofIri (value : Iri) : ρ.SameObject (.ofIri value) (.ofIri value) :=
  ⟨by simp [Object.ofIri, Object.label?, Node.label?], rfl⟩

theorem SameObject.literal (value : Literal) : ρ.SameObject (.literal value) (.literal value) :=
  ⟨by simp [Object.label?], rfl⟩

theorem SameLabel.object {label label' : String} (h : ρ.SameLabel label label') :
    ρ.SameObject (.ofBlank label) (.ofBlank label') := by
  obtain ⟨hown, rfl⟩ := h
  exact ⟨by simpa [Object.ofBlank, Object.label?, Node.label?] using hown, rfl⟩

theorem Relates.empty {supply : Nat → String} (h : ρ.supply = supply) (hoffset : ρ.offset = 0) :
    ρ.Relates ∅ (.empty supply) (.empty (ρ.map ∘ supply)) where
  supply := h.symm
  supply' i := by
    rw [hoffset, Nat.zero_add, h]
    rfl
  next := by
    rw [hoffset]
    rfl
  labels _ := rfl
  known := nofun
  triples triple := iff_of_false List.not_mem_nil fun h => by
    rcases h with h | ⟨_, h, _⟩
    · exact h
    · cases h
  owned := nofun

section

variable {α β γ δ : Type} {r : α → β → Prop} {s : γ → δ → Prop} {x : Encoder α} {y : Encoder β}

theorem Follows.pure {a : α} {b : β} (h : r a b) :
    ρ.Follows r (Pure.pure a : Encoder α) (Pure.pure b : Encoder β) :=
  fun _ _ _ he => ⟨h, he⟩

theorem Follows.bind {g : α → Encoder γ} {g' : β → Encoder δ} (hx : ρ.Follows r x y)
    (hg : ∀ a b, r a b → ρ.Follows s (g a) (g' b)) : ρ.Follows s (x >>= g) (y >>= g') := by
  intro before e e' he
  obtain ⟨hr, hnext⟩ := hx before e e' he
  exact hg _ _ hr _ _ _ hnext

theorem Follows.forM {g g' : α → Encoder Unit} {as : List α} (h : ∀ a ∈ as, ρ.Both (g a) (g' a)) :
    ρ.Both (as.forM g) (as.forM g') := by
  induction as with
  | nil => exact .pure trivial
  | cons a as ih =>
      obtain ⟨ha, has⟩ := List.forall_mem_cons.mp h
      exact ha.bind fun _ _ _ => ih has

end

theorem follows_fresh : ρ.Follows ρ.SameLabel Encoder.fresh Encoder.fresh := by
  intro before e e' he
  constructor
  · refine ⟨⟨e.next, congrFun he.supply.symm e.next⟩, ?_⟩
    change e'.supply e'.next = ρ.map (e.supply e.next)
    rw [he.next, he.supply', he.supply]
  · exact ⟨he.supply, he.supply', congrArg Nat.succ he.next, he.labels, he.known, he.triples, he.owned⟩

theorem Relates.add {before : Set Triple} {e e' : Encoding} (he : ρ.Relates before e e')
    (triple : Triple) (hown : ρ.IsOwn triple) :
    ρ.Relates before { e with graph := e.graph.add triple }
      { e' with graph := e'.graph.add (triple.rename ρ.map) } where
  supply := he.supply
  supply' := he.supply'
  next := he.next
  labels := he.labels
  known := he.known
  triples added := by
    rw [Graph.mem_add, he.triples]
    simp only [Graph.mem_add, exists_eq_or_imp]
    tauto
  owned added hadded := by
    rcases Graph.mem_add.mp hadded with rfl | hadded
    · exact hown
    · exact he.owned added hadded

theorem both_describe {label label' : String} {property : Iri} {object object' : Object}
    (hlabel : ρ.SameLabel label label') (hobject : ρ.SameObject object object')
    (hclass : property = Vocabulary.rdfType → ∃ type ∈ nodeClasses, object = .ofIri type) :
    ρ.Both (Encoder.describe label property object) (Encoder.describe label' property object') := by
  intro before e e' he
  obtain ⟨hown, rfl⟩ := hlabel
  obtain ⟨hobject, rfl⟩ := hobject
  refine ⟨trivial, he.add ⟨.blank label, property, object⟩ ⟨?_, ⟨label, rfl⟩, hclass⟩⟩
  simp only [Triple.labels, List.forall_mem_append, Option.mem_toList]
  exact ⟨by simpa [Node.label?] using hown, hobject⟩

/-- A property that holds no class. -/
theorem both_property {label label' : String} {property : Iri} {object object' : Object}
    (hproperty : property ≠ Vocabulary.rdfType) (hlabel : ρ.SameLabel label label')
    (hobject : ρ.SameObject object object') :
    ρ.Both (Encoder.describe label property object) (Encoder.describe label' property object') :=
  both_describe hlabel hobject fun h => absurd h hproperty

/-- The class of a node. -/
theorem both_class {label label' : String} {type : Iri} (htype : type ∈ nodeClasses)
    (hlabel : ρ.SameLabel label label') :
    ρ.Both (Encoder.describe label Vocabulary.rdfType (.ofIri type))
      (Encoder.describe label' Vocabulary.rdfType (.ofIri type)) :=
  both_describe hlabel (.ofIri type) fun _ => ⟨type, htype, rfl⟩

/-- A label that is remembered in both runs. -/
theorem both_remember {label label' : String} (name : String) (h : ρ.SameLabel label label') :
    ρ.Both (modify fun e => { e with labels := e.labels.insert name label })
      (modify fun e => { e with labels := e.labels.insert name label' }) := by
  intro before e e' he
  obtain ⟨hown, rfl⟩ := h
  refine ⟨trivial, he.supply, he.supply', he.next, fun other => ?_, fun other known hknown => ?_,
    he.triples, he.owned⟩
  · change (e'.labels.insert name _).get? other = ((e.labels.insert name label).get? other).map _
    rw [SortedMap.get?_insert, SortedMap.get?_insert, he.labels other]
    split <;> rfl
  · rcases SortedMap.get?_insert_eq_some_iff.mp hknown with ⟨-, rfl⟩ | ⟨hknown, -⟩
    · exact hown
    · exact he.known other known hknown

theorem follows_variableNode (name : String) :
    ρ.Follows ρ.SameLabel (Encoder.variableNode name) (Encoder.variableNode name) := by
  intro before e e' he
  have hlabels := he.labels name
  cases hlabel : e.labels.get? name with
  | some label =>
      rw [hlabel] at hlabels
      rw [Encoding.run_variableNode_of_some hlabel, Encoding.run_variableNode_of_some hlabels]
      exact ⟨⟨he.known name label hlabel, rfl⟩, he⟩
  | none =>
      rw [hlabel] at hlabels
      rw [Encoding.run_variableNode_of_none hlabel, Encoding.run_variableNode_of_none hlabels]
      refine follows_fresh.bind (fun label label' h => ?_) before e e' he
      refine (both_class (by decide) h).bind fun _ _ _ => ?_
      refine (both_property (by decide) h (.literal _)).bind fun _ _ _ => ?_
      exact (both_remember name h).bind fun _ _ _ => .pure h

theorem follows_termObject (term : Term) :
    ρ.Follows ρ.SameObject (Encoder.termObject term) (Encoder.termObject term) := by
  cases term with
  | iri value => exact .pure (.ofIri value)
  | literal value => exact .pure (.literal value)
  | «variable» value => exact (follows_variableNode value.name).bind fun _ _ h => .pure h.object

section

variable {label label' : String} (hlabel : ρ.SameLabel label label') {property : Iri}
  (hproperty : property ≠ Vocabulary.rdfType)

include hlabel hproperty

theorem both_term (term : Term) :
    ρ.Both (do Encoder.describe label property (← Encoder.termObject term))
      (do Encoder.describe label' property (← Encoder.termObject term)) :=
  (follows_termObject term).bind fun _ _ hobject => both_property hproperty hlabel hobject

theorem both_optionalTerm (term : Option Term) :
    ρ.Both (Encoder.optionalTerm label property term) (Encoder.optionalTerm label' property term) := by
  cases term with
  | none => exact .pure trivial
  | some value => exact both_term hlabel hproperty value

theorem both_optional {object : Option Object} (hobject : ∀ value ∈ object, ρ.SameObject value value) :
    ρ.Both (Encoder.optional (.blank label) property object)
      (Encoder.optional (.blank label') property object) := by
  cases object with
  | none => exact .pure trivial
  | some value => exact both_property hproperty hlabel (hobject value rfl)

theorem both_variableList (names : List String) :
    ρ.Both (Encoder.variableList label property names) (Encoder.variableList label' property names) := by
  unfold Encoder.variableList
  split
  · exact .pure trivial
  · refine follows_fresh.bind fun list list' hlist => ?_
    refine (Follows.forM fun name _ => ?_).bind fun _ _ _ =>
      both_property hproperty hlabel hlist.object
    exact (follows_variableNode name).bind fun _ _ hnode => both_property (by decide) hlist hnode.object

end

theorem sameObject_ofIri? (value : Option Iri) :
    ∀ object ∈ value.map Object.ofIri, ρ.SameObject object object := by
  intro object hobject
  obtain ⟨iri, -, rfl⟩ := Option.mem_map.mp hobject
  exact .ofIri iri

theorem kind_mem_nodeClasses (kind : WindowKind) : kind.iri ∈ nodeClasses := by
  cases kind <;> decide

theorem form_mem_nodeClasses (form : QueryForm) : form.iri ∈ nodeClasses := by
  cases form <;> decide

theorem follows_window (window : Window) :
    ρ.Follows ρ.SameLabel (Encoder.window window) (Encoder.window window) := by
  unfold Encoder.window
  refine follows_fresh.bind fun label label' hlabel => ?_
  refine (both_class (kind_mem_nodeClasses window.kind) hlabel).bind fun _ _ _ => ?_
  refine (Follows.forM fun expected hexpected => ?_).bind fun _ _ _ => .pure hlabel
  exact both_term hlabel (Encoding.ne_rdfType_of_mem hexpected) expected.2

theorem follows_query (query : Query) :
    ρ.Follows ρ.SameLabel (Encoder.query query) (Encoder.query query) := by
  unfold Encoder.query
  refine follows_fresh.bind fun label label' hlabel => ?_
  refine (both_class (form_mem_nodeClasses query.form) hlabel).bind fun _ _ _ => ?_
  refine (both_property (by decide) hlabel (.literal _)).bind fun _ _ _ => ?_
  refine (both_variableList hlabel (by decide) _).bind fun _ _ _ => ?_
  refine (both_variableList hlabel (by decide) _).bind fun _ _ _ => ?_
  refine (Follows.forM fun window _ => ?_).bind fun _ _ _ => ?_
  · exact (follows_window window).bind fun _ _ hwindow =>
      both_property (by decide) hlabel hwindow.object
  refine (both_optionalTerm hlabel (by decide) _).bind fun _ _ _ => ?_
  exact (both_optional hlabel (by decide) (sameObject_ofIri? _)).bind fun _ _ _ => .pure hlabel

end Relabelling

/-- The labels of blank nodes do not matter for what a graph says of a query. -/
theorem Query.graphWith_sameUpToLabels (query : Query) {supply supply' : Nat → String}
    (h : Function.Injective supply) (h' : Function.Injective supply') :
    (query.graphWith supply).SameUpToLabels (query.graphWith supply') := by
  let ρ := Relabelling.between supply supply' h h'
  have hsupply : ρ.map ∘ supply = supply' := by
    change (supply' ∘ Function.invFun supply) ∘ supply = supply'
    rw [Function.comp_assoc, Function.invFun_comp h, Function.comp_id]
  have hrelates := (Relabelling.follows_query query _ _ _ (.empty (ρ := ρ) rfl rfl)).2
  rw [show ρ.supply = supply from rfl, hsupply] at hrelates
  refine ⟨ρ.map, ρ.injOn_own.mono ?_, fun triple => ?_⟩
  · rintro label ⟨triple, htriple, hlabel⟩
    exact (hrelates.owned triple htriple).labels label hlabel
  · exact (hrelates.triples triple).trans (or_iff_right (Set.notMem_empty triple))

end StreamQuery
