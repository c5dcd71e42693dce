import StreamQuery.Query.Parser
import StreamQuery.Query.Printer
import StreamQuery.Sparql.Query

/-!
# Queries over the base language

A query is well formed if what remains without its stream extensions is a query of the base
language.
-/

namespace StreamQuery.Query

/-- Whether the base query of a query is well formed. -/
def isWellFormed (query : Query) : Bool := Sparql.isQuery query.plainText

/-- Reads a well-formed query. -/
def parse (text : String) : Except ParseError Query := do
  let query ← read text
  if query.isWellFormed then return query else throw .base

end StreamQuery.Query
