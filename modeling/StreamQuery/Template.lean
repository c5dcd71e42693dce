import StreamQuery.Codec.Encode
import StreamQuery.Codec.Decode
import StreamQuery.Datatype
import StreamQuery.Graph.Oracle

/-!
# Templates

Queries with parameters. A template declares arguments over variables of its query: of what type
they are, whether they can be left out, and what they are by default.
-/

namespace StreamQuery

open Text

/-- Why a raw value is no value of an argument. -/
inductive BindingError where
  | unparseableLiteral (name value datatype : String)
  | invalidResource (name value : String)
  | undeclaredParameter (name : String)
  deriving DecidableEq, Repr

/-- The wording of a binding error. -/
def BindingError.message : BindingError → String
  | unparseableLiteral name value datatype =>
    s!"value '{value}' for parameter '{name}' could not be parsed as instance of datatype " ++
      s!"'{datatype}'"
  | invalidResource name value =>
    s!"'{value}' for parameter '{name}' is not a valid resource URI"
  | undeclaredParameter name => s!"'{name}' is not a parameter in the template"

/-- An argument that a template ignores or does not accept. -/
inductive ValidationError where
  | missingArgument (name : String)
  | typeMismatch (name value expected : String)
  deriving DecidableEq, Repr

/-- The wording of a validation error. -/
def ValidationError.message : ValidationError → String
  | missingArgument name => s!"missing required parameter '{name}'"
  | typeMismatch name value expected =>
    s!"value {value} for parameter '{name}' does not satisfy value type <{expected}>"

/-- Why a step with a template fails. -/
inductive TemplateError where
  | unknownTemplate (handle : String)
  | alreadyRegistered (handle : String)
  | validation (errors : List ValidationError)
  | missingField (name : String)
  /-- The document is not of the expected form. -/
  | json
  | instantiation (error : ParseError)
  | parse (error : ParseError)
  | construction (error : ConstructionError)
  | codec (error : CodecError)
  | oracle (error : OracleError)
  deriving DecidableEq, Repr

/-- The wording of a template error. -/
def TemplateError.message : TemplateError → String
  | unknownTemplate handle => s!"template '{handle}' is not registered"
  | alreadyRegistered handle => s!"template URI '{handle}' already in use"
  | validation errors =>
    "bindings failed validation: " ++
      String.intercalate "; " (errors.map ValidationError.message)
  | missingField name => s!"missing required value for '{name}'"
  | json => "template document is not valid JSON"
  | instantiation error => s!"instantiated query is not well formed: {error.message}"
  | parse error => error.message
  | construction error => error.message
  | codec error => error.message
  | oracle error => error.message

/-- A text without one pair of angle brackets around it. -/
def withoutBrackets (text : String) : Option String :=
  match text.toList with
  | '<' :: cs => if cs.getLast? = some '>' then some (String.ofList cs.dropLast) else none
  | _ => none

/-- A text without the blanks around it. -/
def trimmed (text : String) : String := String.ofList (trim text.toList)

/-- The resource that a raw value names, in full or abbreviated. -/
def readResource (name raw : String) (prefixes : PrefixMapping) : Except BindingError Term :=
  let text := trimmed raw
  match Iri.ofString? (prefixes.expand ((withoutBrackets text).getD text)) with
  | some value => .ok (.iri value)
  | none => .error (.invalidResource name raw)

/-- The term of a raw value. Of a datatype it is a literal, of a class a resource; without a type
it is a resource if it can be one, and otherwise a string. -/
def readValue (name raw : String) (type : Option Iri) (prefixes : PrefixMapping) :
    Except BindingError Term :=
  match type with
  | none =>
    match readResource name raw prefixes with
    | .ok term => .ok term
    | .error _ => .ok (.literal (.plain raw))
  | some type =>
    if !Datatype.isDatatype type then readResource name raw prefixes
    else if type = Vocabulary.rdfsLiteral ∨ type = Vocabulary.xsdString then
      .ok (.literal (.plain raw))
    else if Datatype.isLexical type (trimmed raw) then
      .ok (.literal (.typed (trimmed raw) type.text))
    else .error (.unparseableLiteral name raw type.text)

/-- A declared parameter. -/
structure Argument where
  name : String
  /-- A datatype or a class of resources; without it, any term will do. -/
  type : Option Iri
  optional : Bool
  default : Option Term
  label : Option String
  comment : Option String
  deriving DecidableEq

/-- An argument as it is written, before it is checked. -/
structure Declaration where
  name : String
  type : Option String
  default : Option String
  optional : Bool
  label : Option String
  comment : Option String
  deriving DecidableEq

/-- A query with parameters, under the IRI that it is known by. -/
structure Template where
  handle : Iri
  body : Query
  /-- The arguments in the order of their names. -/
  arguments : List Argument
  label : Option String
  comment : Option String
  deriving DecidableEq

namespace Template

/-- Arguments in the order of their names. -/
def sortArguments (arguments : List Argument) : List Argument :=
  arguments.mergeSort fun a b => a.name ≤ b.name

/-- A template without arguments. -/
def ofQuery (body : Query) (handle : String) : Except ConstructionError Template :=
  let text := trimRight '>' (handle.toList.dropWhile (· == '<'))
  match Iri.ofString? (String.ofList text) with
  | some iri => .ok ⟨iri, body, [], none, none⟩
  | none => .error (.invalidHandle handle)

/-- The argument of a name. -/
def argument? (template : Template) (name : String) : Option Argument :=
  template.arguments.find? (·.name = name)

/-- The prefixes for raw values: those of the query over others. -/
def prefixes (template : Template) (others : PrefixMapping) : PrefixMapping :=
  PrefixMapping.merge others template.body.prologue.prefixes

/-- The type of an argument from its written form: in brackets, abbreviated or in full. -/
def resolveType? (raw : String) (prefixes : PrefixMapping) : Option Iri :=
  let text := trimmed raw
  match withoutBrackets text with
  | some inner => Iri.ofString? inner
  | none =>
    match prefixes.expand? text with
    | some full => Iri.ofString? full
    | none => if isFull text.toList then Iri.ofString? text else none
where
  /-- Whether a text has a colon and two slashes somewhere. -/
  isFull : List Char → Bool
    | [] => false
    | c :: cs => (after? [':', '/', '/'] (c :: cs)).isSome || isFull cs

/-- Whether a name can be the name of an argument. -/
def isArgumentName (name : String) : Bool :=
  !name.toList.isEmpty && name.toList.all fun c => c.isAlphanum || c == '_'

/-- A name without sigils in front. -/
def withoutSigils (name : String) : String :=
  String.ofList (name.toList.dropWhile fun c => c == '?' || c == '$')

/-- Fails unless a condition holds. -/
def demand (holds : Bool) (error : ConstructionError) : Except TemplateError Unit :=
  if holds then .ok () else .error (.construction error)

/-- Checks that a name can be declared: it is new, it occurs in the query, and the query does not
answer with it. -/
def checkName (template : Template) (name : String) : Except TemplateError Unit := do
  demand (isArgumentName name) (.invalidVariableName name)
  demand (template.argument? name).isNone (.duplicateArgument name)
  let graph := template.body.graph
  let occurs ← (Oracle.hasVariable graph name).mapError .oracle
  demand occurs (.unknownVariable name)
  let projected ← (Oracle.isProjected graph name).mapError .oracle
  demand (!projected) (.projectedVariable name)

/-- The type of an argument from its written form, if there is one. -/
def declaredType (prefixes : PrefixMapping) : Option String → Except TemplateError (Option Iri)
  | none => .ok none
  | some raw =>
    match resolveType? raw prefixes with
    | some type => .ok (some type)
    | none => .error (.construction (.invalidValueType raw))

/-- The default of an argument from its written form, if there is one. -/
def declaredDefault (name : String) (type : Option Iri) (prefixes : PrefixMapping) :
    Option String → Except TemplateError (Option Term)
  | none => .ok none
  | some raw =>
    match readValue name raw type prefixes with
    | .ok term => .ok (some term)
    | .error error => .error (.construction (.invalidDefault name error.message))

/-- Declares an argument; its type and its default may use the prefixes of the query or others. -/
def declareWith (template : Template) (declaration : Declaration) (others : PrefixMapping) :
    Except TemplateError Template := do
  let name := withoutSigils declaration.name
  template.checkName name
  let prefixes := template.prefixes others
  let type ← declaredType prefixes declaration.type
  let default ← declaredDefault name type prefixes declaration.default
  let argument : Argument :=
    ⟨name, type, declaration.optional, default, declaration.label, declaration.comment⟩
  return { template with arguments := sortArguments (template.arguments ++ [argument]) }

/-- Declares an argument with the standard prefixes. -/
def declare (template : Template) (declaration : Declaration) : Except TemplateError Template :=
  template.declareWith declaration PrefixMapping.standard

/-- Whether two templates say the same. -/
def sameAs (a b : Template) : Bool :=
  a.handle == b.handle && a.body.sameAs b.body && a.arguments == b.arguments &&
    a.label == b.label && a.comment == b.comment

end Template

end StreamQuery
