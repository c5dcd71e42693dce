import StreamQuery.Sparql.Expression
import StreamQuery.Sparql.Triples

/-!
# Patterns and selections of the base language

Group patterns, selections inside them, and what stands behind a pattern. A scope tells which
variables a pattern makes visible, and the rules on names are checked as soon as both sides are
known: a new name must not be visible yet, and a grouped selection answers only with what it is
grouped by.
-/

namespace StreamQuery.Sparql

open Recognizer

/-- The variables of a pattern. -/
structure Scope where
  /-- The variables that the pattern can bind. -/
  visible : List String
  /-- Those to which some part of it gives a value of its own, other than by matching triples. -/
  assigned : List String

namespace Scope

/-- The scope of a pattern that binds nothing. -/
def empty : Scope := ⟨[], []⟩

/-- The scope of variables without values of their own. -/
def ofNames (names : List String) : Scope := ⟨names, []⟩

/-- The scope of triples. -/
def ofTriples (patterns : List TriplePattern) : Scope :=
  .ofNames (patterns.flatMap TriplePattern.variableNames)

/-- The scope of two patterns together. -/
def join (a b : Scope) : Scope := ⟨a.visible ++ b.visible, a.assigned ++ b.assigned⟩

/-- The scope of a pattern from which another one takes solutions away. -/
def minus (a b : Scope) : Scope := ⟨a.visible, a.assigned ++ b.assigned⟩

/-- The scope of a pattern with one more variable of its own. -/
def assign (scope : Scope) (name : String) : Scope :=
  ⟨name :: scope.visible, name :: scope.assigned⟩

/-- The scope of a pattern of which only some variables are kept. -/
def restrict (scope : Scope) (names : List String) : Scope :=
  ⟨names, scope.assigned.filter names.contains⟩

end Scope

/-- What a selection answers with: everything that is visible, or items one by one. A new name
comes with the variables that its expression needs. -/
inductive Selection where
  | everything
  | items (list : List (String × Option (List String)))

/-- What a query is grouped by: for each key its variable, if it has one, and whether an
expression gives it its value. -/
abbrev Grouping := List (Option String × Bool)

/-- The scope of the solutions of a query, before anything is selected. -/
def groupScope (scope : Scope) (grouping : Grouping) : Scope :=
  let assigned := grouping.filterMap fun (name, isNew) => if isNew then name else none
  (assigned.foldl Scope.assign scope).restrict (grouping.filterMap Prod.fst)

/-- Whether an item of a selection is allowed, given whether the query is grouped. -/
def isAllowed (grouped : Bool) (visible : List String) : String × Option (List String) → Bool
  | (name, none) => !grouped || visible.contains name
  | (name, some needs) => !visible.contains name && (!grouped || needs.all visible.contains)

/-- The scope of a selection, if it is allowed. -/
def select (selection : Selection) (grouped : Bool) (scope : Scope) : Recognizer Scope :=
  match selection with
  | .everything => do
    require !grouped
    return scope
  | .items items => do
    let names := items.map Prod.fst
    require (items.all (isAllowed grouped scope.visible) && names.eraseDups.length == names.length)
    let assigned := items.filterMap fun (name, needs) => if needs.isSome then some name else none
    return (assigned.foldl Scope.assign scope).restrict names

/-- One value of a block of data. -/
def dataValue : Recognizer Unit := discard groundTerm <|> word "undef"

/-- A block of data: values for one variable, or rows of values that are as long as the list of
variables, in which none comes twice. -/
def dataBlock : Recognizer Scope :=
  (do
    let name ← variableTerm
    sign "\x7b"
    discard <| many dataValue
    sign "\x7d"
    return ⟨[name], [name]⟩) <|>
  (do
    let names ← bracketed (many variableTerm)
    sign "\x7b"
    let rows ← many (bracketed (many dataValue))
    sign "\x7d"
    require (rows.all (·.length == names.length) && names.eraseDups.length == names.length)
    return ⟨names, names⟩)

/-- The items of a selection, behind its keyword. Aggregates from here on belong to it. -/
def selection (group : Recognizer Unit) (depth : Nat) : Recognizer Selection := do
  note fun notes => { notes with aggregates := false :: notes.aggregates }
  discard <| maybe (word "distinct" <|> word "reduced")
  let item : Recognizer (String × Option (List String)) :=
    (do return (← variableTerm, none)) <|>
    bracketed (do
      let shape ← expression group depth
      word "as"
      return (← variableTerm, some shape.needs))
  (do sign "*"; return .everything) <|> (do return .items (← many1 item))

/-- One key that a query is grouped by. A variable is a key by itself, whatever name follows it, and
an aggregate has no name. -/
def groupKey (group : Recognizer Unit) (depth : Nat) : Recognizer (Option String × Bool) :=
  let inner := expression group depth
  (do discard (builtInCall group inner); return (none, true)) <|>
  (do discard (functionCall inner); return (none, true)) <|>
  bracketed (do
    let shape ← inner
    let name ← maybe (do word "as"; variableTerm)
    return match shape with
      | .variable key => (some key, false)
      | .aggregate => (none, true)
      | .computed _ => (name, true)) <|>
  (do return (some (← variableTerm), false))

/-- A count behind a keyword. -/
def limit (keyword : String) : Recognizer Nat := do
  word keyword
  let digits ← take fun cs => some (cs.takeWhile Char.isDigit, cs.dropWhile Char.isDigit)
  let count ← known (Text.digitsCount? digits)
  spaces
  return count

/-- How many solutions are kept and how many are passed over, in either order. -/
def limits : Recognizer (Option Nat × Nat) := do
  let found ← maybe <|
    (do
      let most ← limit "limit"
      return (some most, (← maybe (limit "offset")).getD 0)) <|>
    (do
      let first ← limit "offset"
      return (← maybe (limit "limit"), first))
  return found.getD (none, 0)

/-- The order of the solutions, if it is given. -/
def ordering (group : Recognizer Unit) (depth : Nat) : Recognizer Unit :=
  discard <| maybe do
    word "order"
    word "by"
    many1 <|
      (do
        word "asc" <|> word "desc"
        bracketed (expression group depth)) <|>
      constraint group depth <|> (do return .variable (← variableTerm))

/-- What a query ends with: its keys, conditions, order, limits and a block of data. Answers the
keys, if there are any, and the scope of the data. -/
def modifiers (group : Recognizer Unit) (depth : Nat) :
    Recognizer (Option Grouping × Scope) := do
  let grouping ← maybe do word "group"; word "by"; many1 (groupKey group depth)
  discard <| maybe do word "having"; many1 (constraint group depth)
  ordering group depth
  discard limits
  let data ← maybe do word "values"; dataBlock
  return (grouping, data.getD .empty)

/-- The scope of a query with its selection, if that is allowed. A query without a selection is not
grouped; an aggregate makes a query grouped even without keys. -/
def finish (selection : Option Selection) (scope : Scope) (grouping : Option Grouping)
    (data : Scope) : Recognizer Scope := do
  match selection with
  | some selection =>
    let hasAggregate := (← notes).aggregates.head?.getD false
    note fun notes => { notes with aggregates := notes.aggregates.tail }
    let grouped := hasAggregate || grouping.isSome
    let scope := if grouped then groupScope scope (grouping.getD []) else scope
    select selection grouped (scope.join data)
  | none =>
    require grouping.isNone
    return scope.join data

/-- The members of a group that are not triples, given how to read a group inside. The scope so far
becomes the scope with the member. -/
def member (group : Recognizer Scope) (depth : Nat) (scope : Scope) : Recognizer Scope :=
  let inner := expression (discard group) depth
  (do
    let alternatives ← separated group (word "union")
    return alternatives.foldl Scope.join scope) <|>
  (do word "optional"; return scope.join (← group)) <|>
  (do
    word "lateral"
    let other ← group
    require (!other.assigned.any scope.visible.contains)
    return scope.join other) <|>
  (do word "minus"; return scope.minus (← group)) <|>
  (do
    word "graph"
    let name ← variableOrIri
    return (scope.join (.ofNames name)).join (← group)) <|>
  (do
    word "service"
    let service : Recognizer Scope := do discard variableOrIri; group
    return scope.join (← (do word "silent"; service) <|> service)) <|>
  (do
    word "filter"
    discard (constraint (discard group) depth)
    return scope) <|>
  (do
    word "bind"
    let name ← bracketed do
      discard inner
      word "as"
      variableTerm
    require (!scope.visible.contains name)
    return scope.assign name) <|>
  (do word "values"; return scope.join (← dataBlock))

/-- Members one after another, at most so many. -/
def members (next : Scope → Recognizer Scope) : Nat → Scope → Recognizer Scope
  | 0, scope => pure scope
  | bound + 1, scope => do
    match ← maybe (next scope) with
    | some scope => members next bound scope
    | none => return scope

/-- The inside of a group of triples and other members. -/
def groupBody (group : Recognizer Scope) (depth : Nat) : Recognizer Scope := do
  let block : Recognizer Scope := do
    return .ofTriples ((← maybe (triples true depth)).getD [])
  let next (scope : Scope) : Recognizer Scope := do
    let scope ← member group depth scope
    discard <| maybe (sign ".")
    return scope.join (← block)
  let first ← block
  members next ((← get).length + 1) first

/-- A selection inside a group. -/
def subSelection (group : Recognizer Scope) (depth : Nat) : Recognizer Scope := do
  word "select"
  let items ← selection (discard group) depth
  discard <| maybe (word "where")
  let scope ← group
  let (grouping, data) ← modifiers (discard group) depth
  finish (some items) scope grouping data

/-- A group in braces, with at most so many levels of groups. The labels of blank nodes do not reach
across its braces. -/
def groupPattern (depth : Nat) : Nat → Recognizer Scope
  | 0 => failure
  | levels + 1 => do
    let inner := groupPattern depth levels
    let closed (body : Recognizer Scope) : Recognizer Scope := do
      sign "\x7b"
      closeLabels
      let scope ← body
      closeLabels
      sign "\x7d"
      return scope
    closed (groupBody inner depth) <|> closed (subSelection inner depth)

end StreamQuery.Sparql
