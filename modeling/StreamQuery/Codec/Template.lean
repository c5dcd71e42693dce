import StreamQuery.Template

/-!
# Templates as graphs

The canonical graph of a template: its handle, the graph of its query, and a node for each
argument.
-/

namespace StreamQuery

namespace Encoder

/-- The class of the templates whose queries have a form. -/
def templateType : QueryForm → Iri
  | .select => Vocabulary.selectTemplate
  | .construct => Vocabulary.constructTemplate
  | .ask => Vocabulary.askTemplate
  | .describe => Vocabulary.describeTemplate

/-- The property that stands for an argument. -/
def argumentProperty? (name : String) : Option Iri :=
  Iri.ofString? (Vocabulary.argumentNamespace ++ name)

/-- Writes an argument and answers its node. -/
def argument (argument : Argument) : Encoder String := do
  let label ← fresh
  describe label Vocabulary.rdfType (.ofIri Vocabulary.argumentClass)
  optional (.blank label) Vocabulary.argumentPredicate
    ((argumentProperty? argument.name).map .ofIri)
  optional (.blank label) Vocabulary.argumentValueType (argument.type.map .ofIri)
  optionalTerm label Vocabulary.argumentDefault argument.default
  let flag := if argument.optional then "true" else "false"
  describe label Vocabulary.argumentOptional (.literal (.typed flag Vocabulary.xsdBoolean.text))
  optional (.blank label) Vocabulary.rdfsLabel (argument.label.map .ofString)
  optional (.blank label) Vocabulary.rdfsComment (argument.comment.map .ofString)
  return label

/-- Writes a template. -/
def template (template : Template) : Encoder Unit := do
  let handle := Node.iri template.handle
  add handle Vocabulary.rdfType (.ofIri Vocabulary.templateClass)
  add handle Vocabulary.rdfType (.ofIri (templateType template.body.form))
  add handle Vocabulary.templateBody (.ofBlank (← query template.body))
  optional handle Vocabulary.rdfsLabel (template.label.map .ofString)
  optional handle Vocabulary.rdfsComment (template.comment.map .ofString)
  template.arguments.forM fun declared => do
    add handle Vocabulary.templateConstraint (.ofBlank (← argument declared))

/-- Writes templates one after another, each with variables of its own. -/
def templates (list : List Template) : Encoder Unit :=
  list.forM fun one => do
    modify fun encoding => { encoding with labels := SortedMap.empty }
    template one

end Encoder

/-- The canonical graph of a template. -/
def Template.graph (template : Template) : Graph := (Encoder.template template).graphOf

namespace Graph

/-- The name of the argument that a property stands for: what follows the namespace of arguments,
or the last segment of the IRI. -/
def argumentName (property : Iri) : String :=
  let cs := property.text.toList
  match Text.after? Vocabulary.argumentNamespace.toList cs with
  | some name => String.ofList name
  | none =>
    String.ofList (cs.reverse.takeWhile fun c => !(c == '#' || c == '/')).reverse

/-- Reads an argument. -/
def argument (graph : Graph) (node : String) : Except CodecError Argument := do
  let name ← match ← graph.required node Vocabulary.argumentPredicate with
    | .node (.iri property) => pure (argumentName property)
    | other => throw (.invalidTerm other.text)
  let type ← match graph.object? node Vocabulary.argumentValueType with
    | some (.node (.iri type)) => pure (some type)
    | some other => throw (.invalidTerm other.text)
    | none => pure none
  let default ← graph.optionalTerm node Vocabulary.argumentDefault
  let optional := (graph.literalValue? node Vocabulary.argumentOptional).any fun text =>
    text == "true" || text == "1"
  return ⟨name, type, optional, default, graph.literalValue? node Vocabulary.rdfsLabel,
    graph.literalValue? node Vocabulary.rdfsComment⟩

/-- The handles of all templates, in brackets and in ascending order. -/
def templateHandles (graph : Graph) : List String :=
  graph.subjects Vocabulary.rdfType Vocabulary.templateClass.bracketed

/-- The text that the template of a handle is looked up by: the handle in brackets. -/
def templateKey (handle : String) : String :=
  if handle.toList.head? = some '<' then handle else "<" ++ handle ++ ">"

/-- The IRI of a template, which has to be known as one. -/
def templateHandle (graph : Graph) (key : String) : Except CodecError Iri :=
  let text := Text.trimRight '>' (key.toList.dropWhile (· == '<'))
  if graph.hasType key Vocabulary.templateClass then
    match Iri.ofString? (String.ofList text) with
    | some iri => .ok iri
    | none => .error (.notATemplate key)
  else .error (.notATemplate key)

/-- Reads the template of a handle, with or without brackets. -/
def template (graph : Graph) (handle : String) : Except CodecError Template := do
  let key := templateKey handle
  let iri ← graph.templateHandle key
  let body ← graph.query (← graph.required key Vocabulary.templateBody).text
  let constraints := graph.objects key Vocabulary.templateConstraint
  let arguments ← constraints.mapM fun node => graph.argument node.text
  return ⟨iri, body, Template.sortArguments arguments,
    graph.literalValue? key Vocabulary.rdfsLabel,
    graph.literalValue? key Vocabulary.rdfsComment⟩

/-- Reads all templates of a graph. -/
def templates (graph : Graph) : Except CodecError (List Template) :=
  graph.templateHandles.mapM graph.template

end Graph

end StreamQuery
