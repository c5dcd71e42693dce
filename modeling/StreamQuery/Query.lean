import StreamQuery.Pattern
import StreamQuery.Prefixes
import StreamQuery.Query.Error
import StreamQuery.Window

/-!
# Continuous queries

A query body of the base language together with the windows that it looks through and the stream
that it feeds.
-/

namespace StreamQuery

/-- The declarations in front of a query. -/
structure Prologue where
  base : Option String
  prefixes : PrefixMapping
  deriving DecidableEq

/-- A prologue that declares nothing. -/
def Prologue.empty : Prologue := ⟨none, SortedMap.empty⟩

/-- Whether a prologue declares nothing. -/
def Prologue.isEmpty (prologue : Prologue) : Bool :=
  prologue.base.isNone && prologue.prefixes.entries.isEmpty

/-- The forms of query. -/
inductive QueryForm where
  | select
  | construct
  | ask
  | describe
  deriving DecidableEq, Repr

namespace QueryForm

/-- All forms of query. -/
def all : List QueryForm := [select, construct, ask, describe]

/-- The keyword of a form. -/
def name : QueryForm → String
  | select => "SELECT"
  | construct => "CONSTRUCT"
  | ask => "ASK"
  | describe => "DESCRIBE"

/-- The class of the queries of a form. -/
def iri : QueryForm → Iri
  | select => Vocabulary.selectQuery
  | construct => Vocabulary.constructQuery
  | ask => Vocabulary.askQuery
  | describe => Vocabulary.describeQuery

/-- The form of the queries of a class. -/
def ofIri? (iri : String) : Option QueryForm := all.find? (·.iri.text = iri)

end QueryForm

/-- What a query answers with. -/
inductive ResultForm where
  | select (modifier : Option Token) (projection : List Token)
  /-- Without a template, the pattern is the template. -/
  | construct (template : Option (List Token))
  | ask
  | describe (targets : List Token)
  deriving DecidableEq

/-- The form of a result. -/
def ResultForm.form : ResultForm → QueryForm
  | select _ _ => .select
  | construct _ => .construct
  | ask => .ask
  | describe _ => .describe

/-- A graph that a query reads, by itself or by name. -/
inductive DatasetClause where
  | default (graph : Token)
  | named (graph : Token)
  deriving DecidableEq

/-- The part of a query that belongs to the base language. -/
structure QueryBody where
  form : ResultForm
  dataset : List DatasetClause
  pattern : Option Pattern
  /-- Everything behind the pattern. -/
  modifiers : List Token
  deriving DecidableEq

namespace QueryBody

/-- The variables of the pattern, of a template or of targets, and of the modifiers. -/
def patternVariables (body : QueryBody) : List String :=
  let names (tokens : List Token) := tokens.filterMap Token.variableName?
  sortedNames <|
    (body.pattern.map Pattern.variableOccurrences).getD [] ++
      (match body.form with
        | .construct (some template) => names template
        | .describe targets => names targets
        | _ => []) ++
      names body.modifiers

/-- The variables that stand outside brackets or behind `AS` in a projection, read at a depth of
brackets behind a token. -/
def projectedFrom (depth : Nat) (last : Option Token) : List Token → List String
  | [] => []
  | token :: tokens =>
    if token.isPunct "(" then projectedFrom (depth + 1) (some token) tokens
    else if token.isPunct ")" then projectedFrom (depth - 1) (some token) tokens
    else
      match token.variableName? with
      | some name =>
        if depth = 0 ∨ last.any (·.isWord "AS") then
          name :: projectedFrom depth (some token) tokens
        else projectedFrom depth (some token) tokens
      | none => projectedFrom depth (some token) tokens

/-- The tokens of a projection. -/
def projection (body : QueryBody) : List Token :=
  match body.form with
  | .select _ projection => projection
  | _ => []

/-- The variables that a query answers with. -/
def projectedVariables (body : QueryBody) : List String :=
  sortedNames (projectedFrom 0 none body.projection)

end QueryBody

/-- A continuous query. -/
structure Query where
  prologue : Prologue
  body : QueryBody
  /-- The windows in the order of their declaration. -/
  windows : List Window
  /-- The output stream, if it is declared. -/
  output : Option Term
  operator : OutputOperator
  deriving DecidableEq

namespace Query

/-- A query without windows and output stream. -/
def ofBody (prologue : Prologue) (body : QueryBody) : Query :=
  ⟨prologue, body, [], none, .unspecified⟩

/-- The form of a query. -/
def form (query : Query) : QueryForm := query.body.form.form

/-- The window of a name. -/
def window? (query : Query) (id : Term) : Option Window := query.windows.find? (·.id = id)

/-- Declares a window; its name must be new. -/
def addWindow (query : Query) (window : Window) : Except ConstructionError Query :=
  if (query.window? window.id).isSome then .error (.duplicateWindow window.id.text)
  else .ok { query with windows := query.windows ++ [window] }

/-- Declares windows one after another. -/
def addWindows (query : Query) (windows : List Window) : Except ConstructionError Query :=
  windows.foldlM addWindow query

/-- Declares the output stream and its operator. -/
def setOutputStream (query : Query) (stream : Term) (operator : OutputOperator) : Query :=
  { query with output := some stream, operator := operator }

/-- Sets the operator alone. -/
def setOutputOperator (query : Query) (operator : OutputOperator) : Query :=
  { query with operator := operator }

/-- A query with another pattern. -/
def withPattern (query : Query) (pattern : Pattern) : Query :=
  { query with body := { query.body with pattern := some pattern } }

/-- The windows of one kind, or all of them. -/
def windowsOfKind (query : Query) (kind : Option WindowKind) : List Window :=
  query.windows.filter fun window => kind.all (window.kind = ·)

/-- The variables in the slots of the windows and the output stream. -/
def streamVariables (query : Query) : List String :=
  (query.windows.flatMap Window.terms ++ query.output.toList).filterMap Term.variableName?

/-- All variables of a query. -/
def variableNames (query : Query) : List String :=
  sortedNames <|
    query.body.patternVariables ++ query.body.projection.filterMap Token.variableName? ++
      query.streamVariables

/-- Whether two queries say the same; the order in which windows are declared does not count. -/
def sameAs (a b : Query) : Bool :=
  a.prologue == b.prologue && a.body == b.body &&
    Window.sorted a.windows == Window.sorted b.windows &&
    a.output == b.output && a.operator == b.operator

end Query

end StreamQuery
