import StreamQuery.Json
import StreamQuery.Template.Instantiate

/-!
# Template documents

Templates as JSON, in the form in which a library of templates exchanges them.
-/

namespace StreamQuery

open Text

/-- A template as it is written down. -/
structure TemplateDocument where
  id : String
  query : String
  label : Option String
  comment : Option String
  parameters : List Declaration
  deriving DecidableEq

namespace TemplateHandle

/-- Whether a handle is an identifier inside a namespace. -/
def isShort (handle : List Char) : Bool :=
  handle ≠ [] && handle.all fun c =>
    c.isAlphanum || c == '-' || c == '_' || c == '(' || c == ')'

/-- The IRI of a handle: in brackets, in full or abbreviated, or an identifier inside the
namespace. -/
def resolve (handle space : String) (prefixes : PrefixMapping) :
    Except ConstructionError Iri :=
  let text := trimmed handle
  let text := (withoutBrackets text).getD text
  let full := if isShort text.toList then space ++ text else prefixes.expand text
  match Iri.ofString? full with
  | some iri => .ok iri
  | none => .error (.invalidHandle text)

end TemplateHandle

namespace TemplateDocument

/-- A member that is asked for by its name, or is at its place if the members come as a list. A
name that stands twice is an error, which is the outer `none`. -/
abbrev Fields := String → Nat → Option (Option Json)

/-- The members of an object by their names. -/
def fieldsOfMembers (members : List (Option String × Json)) : Fields := fun name _ =>
  match members.filter (·.1 = some name) with
  | [] => some none
  | [(_, value)] => some (some value)
  | _ => none

/-- The members of a list by their places. -/
def fieldsOfItems (items : List Json) : Fields := fun _ place => some items[place]?

/-- The members of an object or of a list with at most so many items. -/
def fields? (size : Nat) : Json → Option Fields
  | .object members =>
    if members.all (·.1.isSome) then some (fieldsOfMembers members) else none
  | .array items => if items.length ≤ size then some (fieldsOfItems items) else none
  | _ => none

/-- A string that must be there. -/
def stringField (fields : Fields) (name : String) (place : Nat) : Option String := do
  match ← fields name place with
  | some (.string text) => text
  | _ => none

/-- A string that may be missing or null. -/
def optionalField (fields : Fields) (name : String) (place : Nat) : Option (Option String) := do
  match ← fields name place with
  | none | some .null => return none
  | some (.string text) => return some (← text)
  | _ => none

/-- A flag that may be missing. -/
def flagField (fields : Fields) (name : String) (place : Nat) : Option Bool := do
  match ← fields name place with
  | none => return false
  | some (.bool value) => return value
  | _ => none

/-- Reads a parameter. -/
def parameter? (json : Json) : Option Declaration := do
  let fields ← fields? 6 json
  return {
    name := ← stringField fields "varName" 0
    type := ← optionalField fields "valueType" 1
    default := ← optionalField fields "defaultValue" 2
    optional := ← flagField fields "optional" 3
    label := ← optionalField fields "label" 4
    comment := ← optionalField fields "comment" 5 }

/-- The parameters, of which there may be none. -/
def parametersField (fields : Fields) : Option (List Declaration) := do
  match ← fields "parameters" 4 with
  | none => return []
  | some (.array items) => items.mapM parameter?
  | _ => none

/-- Reads a document from a JSON value; members with other names do not count. -/
def ofJson? (json : Json) : Option TemplateDocument := do
  let fields ← fields? 5 json
  return {
    id := ← stringField fields "id" 0
    query := ← stringField fields "query" 1
    label := ← optionalField fields "label" 2
    comment := ← optionalField fields "comment" 3
    parameters := ← parametersField fields }

/-- Reads a document from its text. -/
def parse (text : String) : Except TemplateError TemplateDocument :=
  match (Json.parse? text).bind ofJson? with
  | some document => .ok document
  | none => .error .json

/-- A member that is left out if it is missing. -/
def optionalMember (name : String) (text : Option String) : List (String × Json.Document) :=
  text.toList.map fun text => (name, .string text)

/-- A parameter as a JSON value. -/
def parameterValue (declaration : Declaration) : Json.Document :=
  .object <|
    [("varName", .string declaration.name)] ++ optionalMember "valueType" declaration.type ++
      optionalMember "defaultValue" declaration.default ++
      [("optional", .bool declaration.optional)] ++ optionalMember "label" declaration.label ++
      optionalMember "comment" declaration.comment

/-- A document as a JSON value. -/
def value (document : TemplateDocument) : Json.Document :=
  .object <|
    [("id", .string document.id), ("query", .string document.query)] ++
      optionalMember "label" document.label ++ optionalMember "comment" document.comment ++
      [("parameters", .array (document.parameters.map parameterValue))]

/-- The text of a document. -/
def text (document : TemplateDocument) : String := document.value.render 0

/-- The template of a document. Handles and parameters may use prefixes. -/
def toTemplate (document : TemplateDocument) (space : String) (prefixes : PrefixMapping) :
    Except TemplateError Template := do
  if (trimmed document.id).isEmpty then throw (.missingField "id")
  if (trimmed document.query).isEmpty then throw (.missingField "query")
  let handle ← (TemplateHandle.resolve document.id space prefixes).mapError .construction
  let body ← (Query.parse document.query).mapError .parse
  let template : Template := ⟨handle, body, [], document.label, document.comment⟩
  document.parameters.foldlM (fun template parameter => template.declareWith parameter prefixes)
    template

/-- The raw value that a default is read from. -/
def rawValue : Term → String
  | .iri i => i.text
  | .literal l => l.value
  | .variable v => "?" ++ v.name

/-- The document of a template. -/
def ofTemplate (template : Template) : TemplateDocument where
  id := template.handle.text
  query := template.body.nativeText
  label := template.label
  comment := template.comment
  parameters := template.arguments.map fun argument => {
    name := argument.name
    type := argument.type.map Iri.text
    default := argument.default.map rawValue
    optional := argument.optional
    label := argument.label
    comment := argument.comment }

end TemplateDocument

end StreamQuery
