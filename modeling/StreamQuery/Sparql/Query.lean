import StreamQuery.Sparql.Pattern

/-!
# Queries of the base language

Whole queries, from their prologue to their end.
-/

namespace StreamQuery.Sparql

open Recognizer

/-- The declaration of a base or of a label. -/
def declaration : Recognizer Unit :=
  (do
    word "base"
    let base ← iriReference
    note fun notes => { notes with base := some base }) <|>
  (do
    word "prefix"
    let label ← take prefixLabel?
    spaces
    let space := String.ofList (← iriReference)
    note fun notes => { notes with prefixes := notes.prefixes.insert label space })

/-- The declarations in front of a query. -/
def prologue : Recognizer Unit := discard (many declaration)

/-- The graphs that a query reads. -/
def dataset : Recognizer Unit := do
  discard <| many do
    word "from"
    iri <|> (do word "named"; iri)

/-- A pattern with or without the word in front. -/
def wherePattern (group : Recognizer Scope) : Recognizer Scope := do
  discard <| maybe (word "where")
  group

/-- A pattern that may be missing. -/
def perhapsPattern (group : Recognizer Scope) : Recognizer Scope := do
  return (← maybe (wherePattern group)).getD .empty

/-- A query that selects. -/
def selectQuery (group : Recognizer Scope) (depth : Nat) : Recognizer Unit := do
  word "select"
  let items ← selection (discard group) depth
  dataset
  let scope ← wherePattern group
  let (grouping, data) ← modifiers (discard group) depth
  discard <| finish (some items) scope grouping data

/-- A query without a selection, from its pattern on. -/
def unselected (scope : Recognizer Scope) (group : Recognizer Scope) (depth : Nat) :
    Recognizer Unit := do
  let scope ← scope
  let (grouping, data) ← modifiers (discard group) depth
  discard <| finish none scope grouping data

/-- Triples in braces and nothing else, with paths or without. -/
def bareTriples (paths : Bool) (depth : Nat) : Recognizer (List TriplePattern) := do
  sign "\x7b"
  let patterns ← maybe (triples paths depth)
  sign "\x7d"
  return patterns.getD []

/-- A query that constructs a graph, from a template or from its own pattern. The labels of a
template mean nothing to the pattern behind it. -/
def constructQuery (group : Recognizer Scope) (depth : Nat) : Recognizer Unit :=
  (do
    word "construct"
    discard (bareTriples false depth)
    note fun notes => { notes with freshLabels := [] }
    dataset
    unselected (wherePattern group) group depth) <|>
  (do
    word "construct"
    dataset
    word "where"
    unselected (do return .ofTriples (← bareTriples false depth)) group depth)

/-- A query that describes resources, all of them or those in a list. -/
def describeQuery (group : Recognizer Scope) (depth : Nat) : Recognizer Unit :=
  (do
    word "describe"
    sign "*"
    dataset
    unselected (perhapsPattern group) group depth) <|>
  (do
    word "describe"
    let targets ← many1 variableOrIri
    dataset
    let scope ← perhapsPattern group
    let (grouping, data) ← modifiers (discard group) depth
    let items := targets.flatten.map fun name => (name, none)
    discard <| finish (some (.items items)) scope grouping data)

/-- A query that asks whether there is a solution. -/
def askQuery (group : Recognizer Scope) (depth : Nat) : Recognizer Unit := do
  word "ask"
  dataset
  unselected (wherePattern group) group depth

/-- A whole query, with at most so many levels of brackets and braces. -/
def query (depth : Nat) : Recognizer Unit := do
  spaces
  prologue
  let group := groupPattern depth depth
  selectQuery group depth <|> constructQuery group depth <|> describeQuery group depth <|>
    askQuery group depth

/-- Whether a text is a query of the base language. -/
def isQuery (text : String) : Bool :=
  (readAll? (query (text.length + 1)) text).isSome

end StreamQuery.Sparql
