import StreamQuery.Graph
import StreamQuery.Query.Printer

/-!
# Queries as graphs

The canonical graph of a query. The query is a blank node of the class of its form; its body is
kept as text, and its variables and windows are nodes of their own. A variable has one node in one
encoding, wherever it occurs.
-/

namespace StreamQuery

/-- A graph that is being written. -/
structure Encoding where
  graph : Graph
  /-- The labels of the nodes of variables. -/
  labels : SortedMap String
  /-- The number of blank nodes so far. -/
  next : Nat
  /-- The labels of blank nodes, in the order in which they are taken. -/
  supply : Nat → String

/-- Labels made of a letter and the number of blank nodes before. -/
def Encoding.numbered (n : Nat) : String := "b" ++ String.ofList (Text.decimal n)

/-- The encoding in which nothing is written. -/
def Encoding.empty (supply : Nat → String) : Encoding := ⟨Graph.empty, SortedMap.empty, 0, supply⟩

/-- A step that writes part of a graph. -/
abbrev Encoder := StateM Encoding

namespace Encoder

/-- A blank node that is not in use. -/
def fresh : Encoder String := do
  let encoding ← get
  set { encoding with next := encoding.next + 1 }
  return encoding.supply encoding.next

/-- Writes a triple. -/
def add (subject : Node) (predicate : Iri) (object : Object) : Encoder Unit :=
  modify fun encoding => { encoding with graph := encoding.graph.add ⟨subject, predicate, object⟩ }

/-- Writes a property of a blank node. -/
def describe (label : String) (predicate : Iri) (object : Object) : Encoder Unit :=
  add (.blank label) predicate object

/-- The node of a variable, which is written when the variable is met first. -/
def variableNode (name : String) : Encoder String := do
  match (← get).labels.get? name with
  | some label => return label
  | none =>
    let label ← fresh
    describe label Vocabulary.rdfType (.ofIri Vocabulary.variableClass)
    describe label Vocabulary.varName (.ofString name)
    modify fun encoding => { encoding with labels := encoding.labels.insert name label }
    return label

/-- The object that stands for a term. -/
def termObject : Term → Encoder Object
  | .iri value => pure (.ofIri value)
  | .literal value => pure (.literal value)
  | .variable value => do return .ofBlank (← variableNode value.name)

/-- Writes a property of a node, if there is an object for it. -/
def optional (subject : Node) (predicate : Iri) : Option Object → Encoder Unit
  | some object => add subject predicate object
  | none => pure ()

/-- Writes a term as a property of a blank node, if there is one. -/
def optionalTerm (label : String) (predicate : Iri) : Option Term → Encoder Unit
  | some term => do describe label predicate (← termObject term)
  | none => pure ()

/-- Writes a list of variables as a property of a node, unless the list is empty. -/
def variableList (label : String) (predicate : Iri) (names : List String) : Encoder Unit :=
  if names.isEmpty then pure ()
  else do
    let list ← fresh
    names.forM fun name => do
      describe list Vocabulary.mentions (.ofBlank (← variableNode name))
    describe label predicate (.ofBlank list)

/-- The properties of a window with their terms. -/
def windowProperties (window : Window) : List (Iri × Term) :=
  (Vocabulary.windowUri, window.id) :: (Vocabulary.streamUri, window.stream) ::
    match window.frame with
    | .logical range =>
      (Vocabulary.logicalRange, range) ::
        window.step.toList.map fun step => (Vocabulary.logicalStep, step)
    | .past start stop =>
      (Vocabulary.pastFrom, start) :: (Vocabulary.pastTo, stop) ::
        window.step.toList.map fun step => (Vocabulary.logicalStep, step)
    | .physical items =>
      (Vocabulary.physicalRange, items) ::
        window.step.toList.map fun step => (Vocabulary.physicalStep, step)

/-- Writes a window and answers its node. -/
def window (window : Window) : Encoder String := do
  let label ← fresh
  describe label Vocabulary.rdfType (.ofIri window.kind.iri)
  (windowProperties window).forM fun (predicate, term) => do
    describe label predicate (← termObject term)
  return label

/-- Writes a query and answers its node. -/
def query (query : Query) : Encoder String := do
  let label ← fresh
  describe label Vocabulary.rdfType (.ofIri query.form.iri)
  describe label Vocabulary.queryText (.ofString query.bodyText)
  variableList label Vocabulary.wherePattern query.body.patternVariables
  variableList label Vocabulary.resultVariables query.body.projectedVariables
  (Window.sorted query.windows).forM fun declared => do
    describe label Vocabulary.fromNamedWindow (.ofBlank (← window declared))
  optionalTerm label Vocabulary.hasOutputStream query.output
  optional (.blank label) Vocabulary.hasOutputStreamOperator (query.operator.iri?.map .ofIri)
  return label

end Encoder

/-- The graph that an encoder writes with a supply of labels. -/
def Encoder.graphWith {α : Type} (encoder : Encoder α) (supply : Nat → String) : Graph :=
  (encoder.run (.empty supply)).2.graph

/-- The graph that an encoder writes. -/
def Encoder.graphOf {α : Type} (encoder : Encoder α) : Graph :=
  encoder.graphWith Encoding.numbered

/-- The canonical graph of a query, written with a supply of labels. -/
def Query.graphWith (query : Query) (supply : Nat → String) : Graph :=
  (Encoder.query query).graphWith supply

/-- The canonical graph of a query. -/
def Query.graph (query : Query) : Graph := query.graphWith Encoding.numbered

end StreamQuery
