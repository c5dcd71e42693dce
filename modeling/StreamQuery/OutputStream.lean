import StreamQuery.Term
import StreamQuery.Vocabulary

/-!
# Output streams

How the results of a continuous query become a stream, and the stream that they are sent to.
-/

namespace StreamQuery

/-- What a query emits at each evaluation. -/
inductive OutputOperator where
  /-- Only the results that are new. -/
  | istream
  /-- Only the results that have gone. -/
  | dstream
  /-- All results. -/
  | rstream
  | unspecified
  deriving DecidableEq, Repr

namespace OutputOperator

/-- The operators that have a keyword. -/
def named : List OutputOperator := [istream, dstream, rstream]

/-- The keyword of an operator. -/
def keyword? : OutputOperator → Option String
  | istream => some "ISTREAM"
  | dstream => some "DSTREAM"
  | rstream => some "RSTREAM"
  | unspecified => none

/-- The resource that stands for an operator in a graph. -/
def iri? : OutputOperator → Option Iri
  | istream => some Vocabulary.istream
  | dstream => some Vocabulary.dstream
  | rstream => some Vocabulary.rstream
  | unspecified => none

/-- The keyword of an operator, or the word for its absence. -/
def name (operator : OutputOperator) : String := operator.keyword?.getD "unspecified"

/-- The operator of a keyword, in any case. -/
def ofKeyword? (word : String) : Option OutputOperator :=
  named.find? fun operator => operator.keyword?.any (Text.sameLetters word)

/-- The operator of a resource. -/
def ofIri? (iri : String) : Option OutputOperator :=
  named.find? fun operator => operator.iri?.any (·.text = iri)

end OutputOperator

/-- The declaration of an output stream. -/
structure OutputStream where
  stream : Term
  operator : OutputOperator
  deriving DecidableEq

end StreamQuery
