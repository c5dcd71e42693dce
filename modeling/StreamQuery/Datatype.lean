import StreamQuery.Datatype.Calendar
import StreamQuery.Datatype.Floating
import StreamQuery.Duration
import StreamQuery.Text.Scan
import StreamQuery.Vocabulary

/-!
# Datatypes

Which types are datatypes rather than classes of resources, and which texts are lexical forms of
the datatypes whose values are known.
-/

namespace StreamQuery.Datatype

open Text

/-- The namespace of the built-in datatypes. -/
def space : String := "http://www.w3.org/2001/XMLSchema#"

/-- Whether a type is a datatype. -/
def isDatatype (type : Iri) : Bool :=
  (after? space.toList type.text.toList).isSome || type = Vocabulary.rdfsLiteral ||
    type = Vocabulary.rdfLangString

/-- A text without a sign in front. -/
def unsigned : List Char → List Char
  | '+' :: cs | '-' :: cs => cs
  | cs => cs

/-- An integer: digits with or without a sign. -/
def isInteger (cs : List Char) : Bool := unsigned cs ≠ [] && (unsigned cs).all Char.isDigit

/-- A decimal number: digits before or behind an optional point, with or without a sign. -/
def isDecimal (cs : List Char) : Bool :=
  let (whole, fraction) := splitFirst '.' (unsigned cs)
  let fraction := fraction.getD []
  !(whole.isEmpty && fraction.isEmpty) && whole.all Char.isDigit && fraction.all Char.isDigit

/-- A floating-point number. -/
def isFloating (cs : List Char) : Bool :=
  ["INF", "-INF", "NaN"].contains (String.ofList cs) || Floating.isFiniteNumeral cs

/-- Whether a text is a lexical form of a datatype; of one that is not known, any text is. -/
def isLexical (datatype : Iri) (text : String) : Bool :=
  let cs := text.toList
  if datatype = Vocabulary.xsdInteger then isInteger cs
  else if datatype = Vocabulary.xsdDecimal then isDecimal cs
  else if datatype = Vocabulary.xsdDouble ∨ datatype = Vocabulary.xsdFloat then isFloating cs
  else if datatype = Vocabulary.xsdBoolean then ["true", "false", "1", "0"].contains text
  else if datatype = Vocabulary.xsdDuration then (DurationFields.ofLexical? text).isSome
  else if datatype = Vocabulary.xsdDateTime then Calendar.isDateTime cs
  else if datatype = Vocabulary.xsdDate then Calendar.isDate cs
  else if datatype = Vocabulary.xsdAnyUri then !cs.any isBlank
  else true

end StreamQuery.Datatype
