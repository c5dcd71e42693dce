import StreamQuery.Term
import StreamQuery.Token.Lexer

/-!
# Errors of the query model

Why a text is no query, and why a query or a template cannot be built in a certain way.
-/

namespace StreamQuery

/-- A step of construction that would leave a query or a template ill-formed. -/
inductive ConstructionError where
  | duplicateWindow (id : String)
  | invalidHandle (handle : String)
  | unknownVariable (name : String)
  | projectedVariable (name : String)
  | invalidVariableName (name : String)
  | invalidValueType (type : String)
  | duplicateArgument (name : String)
  | invalidDefault (name reason : String)
  deriving DecidableEq, Repr

/-- The wording of a construction error. -/
def ConstructionError.message : ConstructionError → String
  | .duplicateWindow id => s!"window {id} is already declared"
  | .invalidHandle handle => s!"'{handle}' is not a valid template handle"
  | .unknownVariable name => s!"'{name}' is not a variable in the query"
  | .projectedVariable name => s!"projected variable '{name}' cannot be a parameter"
  | .invalidVariableName name => s!"'{name}' is an illegal variable name"
  | .invalidValueType type => s!"'{type}' is not a valid value type"
  | .duplicateArgument name => s!"argument '{name}' is already declared"
  | .invalidDefault name reason => s!"invalid default value for '{name}': {reason}"

/-- Why a text is not a query. -/
inductive ParseError where
  | lexical (error : LexicalError)
  | unexpected (expected found : String)
  | unexpectedEnd (expected : String)
  | undeclaredPrefix (label : String)
  | invalidIri (text : String)
  | invalidVariable (name : String)
  | invalidWindowValue (slot value : String)
  | duration (error : DurationError)
  | construction (error : ConstructionError)
  /-- The query without its stream extensions is not in the base language. -/
  | base
  deriving DecidableEq, Repr

/-- The wording of a parse error. -/
def ParseError.message : ParseError → String
  | .lexical ⟨offset, fault⟩ => s!"lexical error at byte {offset}: {fault.message}"
  | .unexpected expected found => s!"expected {expected}, found '{found}'"
  | .unexpectedEnd expected => s!"unexpected end of query, expected {expected}"
  | .undeclaredPrefix label => s!"undeclared prefix '{label}'"
  | .invalidIri text => s!"invalid IRI <{text}>"
  | .invalidVariable name => s!"invalid variable name '{name}'"
  | .invalidWindowValue slot value => s!"invalid {slot} value '{value}'"
  | .duration error => error.message
  | .construction error => error.message
  | .base => "the base query is not well formed"

namespace Term

/-- The term of an absolute IRI. -/
def ofIri (text : String) : Except ParseError Term :=
  match Iri.ofString? text with
  | some value => .ok (.iri value)
  | none => .error (.invalidIri text)

/-- The term of a variable. -/
def ofVariable (name : String) : Except ParseError Term :=
  match Variable.ofString? name with
  | some value => .ok (.variable value)
  | none => .error (.invalidVariable name)

end Term

end StreamQuery
