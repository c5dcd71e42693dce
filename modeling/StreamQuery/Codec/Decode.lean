import StreamQuery.Graph.NTriples
import StreamQuery.Query.Base

/-!
# Queries out of graphs

Reads a query back from its canonical graph. Where a property has several objects, the one whose
text comes first counts; only of the classes of a window, the first one that the graph holds counts.
-/

namespace StreamQuery

/-- Why a graph cannot be read. -/
inductive CodecError where
  | missingQueryNode
  | ambiguousQueryNode
  | unknownWindowType (types : String)
  | unknownOperator (text : String)
  | missingProperty (node property : String)
  | invalidTerm (text : String)
  | notATemplate (handle : String)
  /-- The text is not a graph. -/
  | nTriples
  | body (error : ParseError)
  | construction (error : ConstructionError)
  deriving DecidableEq, Repr

/-- The wording of a codec error. -/
def CodecError.message : CodecError → String
  | missingQueryNode => "graph has no query node"
  | ambiguousQueryNode => "graph has more than one query node"
  | unknownWindowType types => s!"unknown window type {types}"
  | unknownOperator text => s!"unknown output stream operator {text}"
  | missingProperty node property => s!"node {node} lacks mandatory property {property}"
  | invalidTerm text => s!"{text} cannot be decoded as a query term"
  | notATemplate handle => s!"{handle} is not a template"
  | nTriples => "invalid N-Triples"
  | body error => s!"query text could not be decoded: {error.message}"
  | construction error => error.message

namespace Graph

/-- The nodes of queries, in ascending order for each form of query and then altogether. -/
def queryNodes (graph : Graph) : List String :=
  (QueryForm.all.flatMap fun form =>
    graph.subjects Vocabulary.rdfType form.iri.bracketed).mergeSort fun a b => a ≤ b

/-- An object that a node must have. -/
def required (graph : Graph) (node : String) (property : Iri) : Except CodecError Object :=
  match graph.object? node property with
  | some object => .ok object
  | none => .error (.missingProperty node property.text)

/-- The lexical form of a literal. -/
def literalValue? (graph : Graph) (node : String) (property : Iri) : Option String :=
  match graph.object? node property with
  | some (.literal value) => some value.value
  | _ => none

/-- The term that an object stands for; a blank node must have the name of a variable. -/
def term (graph : Graph) : Object → Except CodecError Term
  | .node (.iri value) => .ok (.iri value)
  | .literal value => .ok (.literal value)
  | .node (.blank label) =>
    let node := (Node.blank label).text
    match graph.literalValue? node Vocabulary.varName with
    | none => .error (.invalidTerm node)
    | some name =>
      match Variable.ofString? name with
      | some value => .ok (.variable value)
      | none => .error (.invalidTerm name)

/-- The term behind a property that a node must have. -/
def requiredTerm (graph : Graph) (node : String) (property : Iri) : Except CodecError Term := do
  graph.term (← graph.required node property)

/-- The term behind a property that a node may have. -/
def optionalTerm (graph : Graph) (node : String) (property : Iri) :
    Except CodecError (Option Term) :=
  match graph.object? node property with
  | some object => some <$> graph.term object
  | none => .ok none

/-- The kind of window that an object names. -/
def windowKind? : Object → Option WindowKind
  | .node (.iri value) => WindowKind.ofIri? value.text
  | _ => none

/-- The kind of a window, which is its first class in the graph that names one. -/
def windowKind (graph : Graph) (node : String) : Except CodecError WindowKind :=
  let types := graph.listed node Vocabulary.rdfType
  match types.findSome? windowKind? with
  | some kind => .ok kind
  | none =>
    if types.isEmpty then .error (.unknownWindowType s!"(untyped window {node})")
    else .error (.unknownWindowType (String.intercalate ", " (types.map Object.text)))

/-- Reads a window. -/
def window (graph : Graph) (node : String) : Except CodecError Window := do
  let kind ← graph.windowKind node
  let id ← graph.requiredTerm node Vocabulary.windowUri
  let stream ← graph.requiredTerm node Vocabulary.streamUri
  match kind with
  | .logical =>
    let range ← graph.requiredTerm node Vocabulary.logicalRange
    return ⟨id, stream, .logical range, ← graph.optionalTerm node Vocabulary.logicalStep⟩
  | .past =>
    let start ← graph.requiredTerm node Vocabulary.pastFrom
    let stop ← graph.requiredTerm node Vocabulary.pastTo
    return ⟨id, stream, .past start stop, ← graph.optionalTerm node Vocabulary.logicalStep⟩
  | .physical =>
    let items ← graph.requiredTerm node Vocabulary.physicalRange
    return ⟨id, stream, .physical items, ← graph.optionalTerm node Vocabulary.physicalStep⟩

/-- Reads the output operator of a query. -/
def outputOperator (graph : Graph) (node : String) : Except CodecError OutputOperator :=
  match graph.object? node Vocabulary.hasOutputStreamOperator with
  | none => .ok .unspecified
  | some object =>
    match object with
    | .node (.iri value) =>
      match OutputOperator.ofIri? value.text with
      | some operator => .ok operator
      | none => .error (.unknownOperator object.text)
    | _ => .error (.unknownOperator object.text)

/-- Reads the query of a node. -/
def query (graph : Graph) (node : String) : Except CodecError Query := do
  let text ← match graph.literalValue? node Vocabulary.queryText with
    | some text => pure text
    | none => throw (.missingProperty node Vocabulary.queryText.text)
  let query ← (Query.parse text).mapError .body
  let windows := graph.objects node Vocabulary.fromNamedWindow
  let query ← windows.foldlM (fun query object => do
    let window ← graph.window object.text
    (query.addWindow window).mapError CodecError.construction) query
  let operator ← graph.outputOperator node
  match graph.object? node Vocabulary.hasOutputStream with
  | some stream => return query.setOutputStream (← graph.term stream) operator
  | none => return query.setOutputOperator operator

/-- Reads the only query of a graph. -/
def onlyQuery (graph : Graph) : Except CodecError Query :=
  match graph.queryNodes with
  | [] => .error .missingQueryNode
  | [node] => graph.query node
  | _ => .error .ambiguousQueryNode

/-- Reads a graph from its text. -/
def parse (text : String) : Except CodecError Graph :=
  match ofNTriples? text with
  | some graph => .ok graph
  | none => .error .nTriples

end Graph

end StreamQuery
