import StreamQuery.Sparql.Question

/-!
# Questions to a graph

The three questions that templates ask: whether a variable occurs in an encoded query, whether the
query answers with it, and whether a resource belongs to a class of an ontology.
-/

namespace StreamQuery

namespace Graph

/-- Whether a node is a variable of a given name. -/
def isVariableNamed (graph : Graph) (name : String) (object : Object) : Bool :=
  graph.hasType object.text Vocabulary.variableClass &&
    (graph.objects object.text Vocabulary.varName).contains (.ofString name)

/-- The objects of a property, whatever its subject. -/
def allObjects (graph : Graph) (predicate : Iri) : List Object :=
  graph.triples.filterMap fun triple =>
    if triple.predicate = predicate then some triple.object else none

/-- The objects of all properties of a node. -/
def allProperties (graph : Graph) (subject : String) : List Object :=
  graph.triples.filterMap fun triple =>
    if triple.subject.text = subject then some triple.object else none

/-- The members of the variable lists that a property leads to. -/
def listedVariables (graph : Graph) (predicate : Iri) : List Object :=
  (graph.allObjects predicate).flatMap fun list => graph.objects list.text Vocabulary.mentions

/-- Whether a variable occurs in the pattern, in a slot of a window or as the output stream. -/
def hasVariable (graph : Graph) (name : String) : Bool :=
  (graph.listedVariables Vocabulary.wherePattern ++
    (graph.allObjects Vocabulary.fromNamedWindow).flatMap
      (fun window => graph.allProperties window.text) ++
    graph.allObjects Vocabulary.hasOutputStream).any (graph.isVariableNamed name)

/-- Whether a variable is one of the results. -/
def isProjected (graph : Graph) (name : String) : Bool :=
  (graph.listedVariables Vocabulary.resultVariables).any fun object =>
    (graph.objects object.text Vocabulary.varName).contains (.ofString name)

/-- The ways from a resource to what it is an instance, a subclass or a subproperty of: to one of
its classes and up from there, or up along one of the two hierarchies. -/
def upward : PropertyPath :=
  let up (property : Iri) : PropertyPath := .property property
  .choice
    (.choice
      (.sequence (up Vocabulary.rdfType) (.repeated (up Vocabulary.rdfsSubClassOf)))
      (up Vocabulary.rdfsSubClassOf).repeatedOnce)
    (up Vocabulary.rdfsSubPropertyOf).repeatedOnce

/-- Whether a resource is an instance, a subclass or a subproperty of another. -/
def isBelow (graph : Graph) (value top : Iri) : Bool :=
  graph.connects upward (.ofIri value) (.ofIri top)

end Graph

/-- A question that cannot be asked about a graph. -/
inductive OracleError where
  /-- A name with a line break. -/
  | brokenName (name : String)
  /-- A question that is none in the base language. -/
  | invalidQuestion (text : String)
  deriving DecidableEq, Repr

/-- The wording of an oracle error. -/
def OracleError.message : OracleError → String
  | brokenName name => s!"oracle query failed: the name '{name}' has a line break"
  | invalidQuestion text => s!"oracle query failed: {text}"

namespace Oracle

/-- A name that a question can mention. -/
def checkName (name : String) : Except OracleError Unit :=
  if name.toList.any fun c => c == '\n' || c == '\r' then .error (.brokenName name) else .ok ()

/-- Whether a variable occurs in an encoded query, outside its results. -/
def hasVariable (graph : Graph) (name : String) : Except OracleError Bool := do
  checkName name
  return graph.hasVariable name

/-- Whether an encoded query answers with a variable. -/
def isProjected (graph : Graph) (name : String) : Except OracleError Bool := do
  checkName name
  return graph.isProjected name

/-- The text that asks whether a resource is an instance, a subclass or a subproperty of another.
Nothing is escaped in it. -/
def upwardText (value top : String) : String :=
  let type := Vocabulary.rdfType.bracketed
  let subClass := Vocabulary.rdfsSubClassOf.bracketed
  let subProperty := Vocabulary.rdfsSubPropertyOf.bracketed
  "ASK \x7b <" ++ value ++ "> (" ++ type ++ "/" ++ subClass ++ "*)|" ++ subClass ++ "+|" ++
    subProperty ++ "+ <" ++ top ++ "> \x7d"

/-- Whether a resource is the same as another, or an instance, a subclass or a subproperty of it.
Texts that are not absolute IRIs become part of the question as they are. -/
def isA (ontology : Graph) (value top : String) : Except OracleError Bool :=
  if value = top then .ok true
  else
    match Iri.ofString? value, Iri.ofString? top with
    | some value, some top => .ok (ontology.isBelow value top)
    | _, _ =>
      let text := upwardText value top
      if Sparql.isQuery text then
        .ok ((Sparql.Question.ofText? text).any fun question => question.holdsIn ontology)
      else .error (.invalidQuestion text)

end Oracle

end StreamQuery
