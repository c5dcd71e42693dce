import StreamQuery.SortedMap
import StreamQuery.Term
import StreamQuery.Vocabulary

/-!
# Graphs

Finite sets of triples, in the order in which the graph holds them. A node is addressed by its
N-Triples text, so that a text that names no node of a graph has no properties there. Objects and
subjects are looked up in the order of their texts; only a listing takes objects as they come.
-/

namespace StreamQuery

/-- What a graph can say something about. -/
inductive Node where
  | iri (value : Iri)
  | blank (label : String)
  deriving DecidableEq

/-- The N-Triples text of a node. -/
def Node.text : Node → String
  | iri value => value.bracketed
  | blank label => "_:" ++ label

/-- What stands behind a property. -/
inductive Object where
  | node (value : Node)
  | literal (value : Literal)
  deriving DecidableEq

namespace Object

/-- The object that is an IRI. -/
def ofIri (value : Iri) : Object := .node (.iri value)

/-- The object that is a blank node. -/
def ofBlank (label : String) : Object := .node (.blank label)

/-- The object that is a plain string. -/
def ofString (value : String) : Object := .literal (.plain value)

/-- The N-Triples text of an object. -/
def text : Object → String
  | node value => value.text
  | literal value => value.text

end Object

/-- One statement of a graph. -/
structure Triple where
  subject : Node
  predicate : Iri
  object : Object
  deriving DecidableEq

/-- The N-Triples text of a triple, without the dot at its end. -/
def Triple.text (triple : Triple) : String :=
  triple.subject.text ++ " " ++ triple.predicate.bracketed ++ " " ++ triple.object.text

/-- A finite set of triples. -/
structure Graph where
  triples : List Triple
  distinct : triples.Nodup

namespace Graph

/-- The graph without triples. -/
def empty : Graph := ⟨[], List.nodup_nil⟩

/-- Whether a triple is in a graph. -/
def contains (graph : Graph) (triple : Triple) : Bool := graph.triples.contains triple

/-- A graph with one more triple, unless it has the triple already. -/
def add (graph : Graph) (triple : Triple) : Graph :=
  if h : triple ∈ graph.triples then graph
  else ⟨triple :: graph.triples, List.nodup_cons.mpr ⟨h, graph.distinct⟩⟩

/-- A graph with more triples. -/
def addAll (graph : Graph) (triples : List Triple) : Graph := triples.foldl add graph

/-- The triples of two graphs. -/
def union (graph other : Graph) : Graph := graph.addAll other.triples

/-- The number of triples. -/
def size (graph : Graph) : Nat := graph.triples.length

/-- Whether there are no triples. -/
def isEmpty (graph : Graph) : Bool := graph.triples.isEmpty

/-- The objects of a property of a node, in the order of the triples. -/
def listed (graph : Graph) (subject : String) (predicate : Iri) : List Object :=
  graph.triples.filterMap fun triple =>
    if triple.predicate = predicate ∧ triple.subject.text = subject then some triple.object
    else none

/-- The objects of a property of a node, in the order of their texts. -/
def objects (graph : Graph) (subject : String) (predicate : Iri) : List Object :=
  (graph.listed subject predicate).mergeSort fun a b => a.text ≤ b.text

/-- The first object of a property of a node. -/
def object? (graph : Graph) (subject : String) (predicate : Iri) : Option Object :=
  (graph.objects subject predicate).head?

/-- The texts of the nodes with a property whose object has a given text, in ascending order. -/
def subjects (graph : Graph) (predicate : Iri) (object : String) : List String :=
  sortedNames <| graph.triples.filterMap fun triple =>
    if triple.predicate = predicate ∧ triple.object.text = object then some triple.subject.text
    else none

/-- Whether a node has a class. -/
def hasType (graph : Graph) (subject : String) (type : Iri) : Bool :=
  (graph.objects subject Vocabulary.rdfType).contains (.ofIri type)

end Graph

end StreamQuery
