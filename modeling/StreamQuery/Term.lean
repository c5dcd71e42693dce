import StreamQuery.Duration
import StreamQuery.Iri
import StreamQuery.LanguageTag
import StreamQuery.Text.NameChar

/-!
# Terms

What stands in a slot of a window or names a stream: an IRI, a literal or a variable. The text of
a term is its N-Triples form, and terms are ordered by kind and then by that text.
-/

namespace StreamQuery

open Text

/-- A name that a query variable can have. A colon may stand in front. -/
def isVariableName : List Char → Bool
  | [] => false
  | first :: rest => (isLabelStart first || first == ':') && rest.all isVariableChar

/-- A query variable. -/
structure Variable where
  name : String
  valid : isVariableName name.toList = true
  deriving DecidableEq

/-- Checks that a text is the name of a variable. -/
def Variable.ofString? (name : String) : Option Variable :=
  if h : isVariableName name.toList = true then some ⟨name, h⟩ else none

/-- The text of the datatype that plain literals have. -/
def stringDatatype : String := "http://www.w3.org/2001/XMLSchema#string"

/-- What distinguishes literals of one lexical form. A plain literal is a string, so no other
literal names the string datatype. -/
inductive Annotation where
  | plain
  | datatype (text : String) (proper : text ≠ stringDatatype)
  | language (tag : String)
  deriving DecidableEq

/-- A lexical form with its annotation. -/
structure Literal where
  value : String
  annotation : Annotation
  deriving DecidableEq

namespace Literal

/-- A plain string. -/
def plain (value : String) : Literal := ⟨value, .plain⟩

/-- The literal of a datatype; of the string datatype, a plain string. -/
def typed (value datatype : String) : Literal :=
  if h : datatype = stringDatatype then plain value else ⟨value, .datatype datatype h⟩

/-- A string in a language; the case of the tag does not count. -/
def tagged (value tag : String) : Literal :=
  ⟨value, .language (String.ofList (tag.toList.map Char.toLower))⟩

/-- The datatype of a literal. -/
def datatype (literal : Literal) : String :=
  match literal.annotation with
  | .plain => stringDatatype
  | .datatype text _ => text
  | .language _ => "http://www.w3.org/1999/02/22-rdf-syntax-ns#langString"

/-- One character of a quoted lexical form: quotes, backslashes and controls are escaped. -/
def escapeChar (c : Char) : List Char :=
  match c with
  | '\x08' => ['\\', 'b']
  | '\t' => ['\\', 't']
  | '\n' => ['\\', 'n']
  | '\x0C' => ['\\', 'f']
  | '\r' => ['\\', 'r']
  | '"' => ['\\', '"']
  | '\\' => ['\\', '\\']
  | c =>
    if c.toNat < 0x20 || c.toNat == 0x7F || c.toNat == 0xFFFE || c.toNat == 0xFFFF then
      '\\' :: 'u' :: hexCode c.toNat
    else [c]

/-- A lexical form between quotes. -/
def quoted (value : String) : String :=
  String.ofList ('"' :: value.toList.flatMap escapeChar ++ ['"'])

/-- The N-Triples form. -/
def text (literal : Literal) : String :=
  match literal.annotation with
  | .plain => quoted literal.value
  | .datatype datatype _ => quoted literal.value ++ "^^<" ++ datatype ++ ">"
  | .language tag => quoted literal.value ++ "@" ++ tag

end Literal

/-- A value or a variable. -/
inductive Term where
  | iri (value : Iri)
  | literal (value : Literal)
  | variable (value : Variable)
  deriving DecidableEq

namespace Term

/-- The duration literal of a lexical form, which is checked. -/
def duration (lexical : String) : Except DurationError Term := do
  discard (Duration.parseFields lexical)
  return .literal (.typed lexical "http://www.w3.org/2001/XMLSchema#duration")

/-- The literal of a duration in its canonical form. -/
def ofDuration (d : Duration) : Term :=
  .literal (.typed d.lexical "http://www.w3.org/2001/XMLSchema#duration")

/-- The literal of a count. -/
def ofCount (n : Nat) : Term :=
  .literal (.typed (String.ofList (decimal n)) "http://www.w3.org/2001/XMLSchema#integer")

/-- Whether a term is a variable. -/
def isVariable : Term → Bool
  | .variable _ => true
  | _ => false

/-- The name of a variable. -/
def variableName? : Term → Option String
  | .variable v => some v.name
  | _ => none

/-- The text of an IRI. -/
def iriText? : Term → Option String
  | .iri i => some i.text
  | _ => none

/-- The length of time that a literal denotes; no answer for terms that are not literals. -/
def duration? : Term → Option (Except DurationError Duration)
  | .literal l => some (Duration.parse l.value)
  | _ => none

/-- The count that a literal denotes. -/
def count? : Term → Option Nat
  | .literal l => readCount? l.value
  | _ => none

/-- The N-Triples form; a variable has a question mark in front. -/
def text : Term → String
  | .iri i => i.bracketed
  | .literal l => l.text
  | .variable v => "?" ++ v.name

/-- The place of a kind of term in the order of terms. -/
def rank : Term → Nat
  | .iri _ => 0
  | .literal _ => 1
  | .variable _ => 2

/-- IRIs come first, variables last; terms of one kind are in the order of their texts. -/
instance : Ord Term where
  compare a b := (compare a.rank b.rank).then (compare a.text b.text)

end Term

end StreamQuery
