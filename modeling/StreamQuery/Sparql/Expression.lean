import StreamQuery.Sparql.Terms

/-!
# Expressions of the base language

Each recognizer answers the names of the variables that must be bound for the expression to have a
value in a grouped query. Variables inside an aggregate, a test whether a variable is bound, a
fallback or a pattern do not count.

Some forms are tried one after another although they begin alike. What they have in common is then
read more than once, which a label of a blank node does not stand.
-/

namespace StreamQuery.Sparql

open Recognizer

/-- What the rules on names ask about an expression. -/
inductive Shape where
  /-- A variable and nothing else, perhaps in brackets. -/
  | variable (name : String)
  /-- An aggregate and nothing else, perhaps in brackets. -/
  | aggregate
  /-- Anything else, with the variables that it needs. -/
  | computed (needs : List String)

namespace Shape

/-- The variables that an expression needs. -/
def needs : Shape → List String
  | .variable name => [name]
  | .aggregate => []
  | .computed names => names

/-- The expression that is made of others. -/
def ofParts (parts : List Shape) : Shape := .computed (parts.flatMap needs)

end Shape

/-- Functions of one argument. -/
def unaryFunctions : List String :=
  ["str", "lang", "datatype", "iri", "uri", "abs", "ceil", "floor", "round", "strlen", "ucase",
    "lcase", "encode_for_uri", "year", "month", "day", "hours", "minutes", "seconds", "timezone",
    "tz", "md5", "sha1", "sha256", "sha384", "sha512", "isiri", "isuri", "isblank", "isliteral",
    "isnumeric"]

/-- Functions of two arguments. -/
def binaryFunctions : List String :=
  ["langmatches", "contains", "strstarts", "strends", "strbefore", "strafter", "strlang",
    "strdt", "sameterm", "adjust"]

/-- Functions without arguments. -/
def constantFunctions : List String := ["rand", "now", "uuid", "struuid"]

/-- Aggregates of one expression. -/
def simpleAggregates : List String := ["count", "sum", "min", "max", "avg", "sample"]

/-- Notes an aggregate in the innermost enclosing selection, which must exist. -/
def useAggregate : Recognizer Unit := do
  match (← notes).aggregates with
  | [] => failure
  | _ :: outer => note fun notes => { notes with aggregates := true :: outer }

/-- Exactly so many expressions with commas in between, in brackets. -/
def arguments (expression : Recognizer Shape) (count : Nat) : Recognizer Shape := do
  let parts ← bracketed (separated expression (sign ","))
  require (parts.length == count)
  return .ofParts parts

/-- Any number of expressions with commas in between, in brackets. -/
def expressionList (expression : Recognizer Shape) : Recognizer Shape :=
  (do return .ofParts (← bracketed (separated expression (sign ",")))) <|>
  (do emptyBrackets; return .computed [])

/-- An aggregate. -/
def aggregate (expression : Recognizer Shape) : Recognizer Shape := do
  let perhapsDistinct (argument : Recognizer Unit) : Recognizer Unit :=
    (do sign "("; word "distinct"; argument; sign ")") <|> bracketed argument
  let separator : Recognizer Unit := do
    sign ";"
    word "separator"
    sign "="
    discard string
  (do word "count"; perhapsDistinct (sign "*")) <|>
  afterAnyWord (perhapsDistinct (discard expression)) simpleAggregates <|>
  (do
    word "group_concat"
    let joined : Recognizer Unit := do discard expression; separator; sign ")"
    let plain : Recognizer Unit := do discard expression; sign ")"
    sign "("
    (do word "distinct"; joined <|> plain) <|> joined <|> plain)
  useAggregate
  return .aggregate

/-- A test whether a pattern has a match, given how to read a pattern. -/
def existence (group : Recognizer Unit) : Recognizer Shape := do
  discard <| maybe (word "not")
  word "exists"
  group
  return .computed []

/-- A call of a built-in function. Nothing may stand between the names of some functions and their
bracket. -/
def builtInCall (group : Recognizer Unit) (expression : Recognizer Shape) : Recognizer Shape :=
  aggregate expression <|>
  afterAnyWord (arguments expression 1) unaryFunctions <|>
  afterAnyWord (arguments expression 2) binaryFunctions <|>
  afterAnyWord (do emptyBrackets; return .computed []) constantFunctions <|>
  (do word "bound"; discard (bracketed variableTerm); return .computed []) <|>
  (do word "bnode"; arguments expression 1) <|>
  (do bareWord "bnode"; emptyBrackets; return .computed []) <|>
  (do bareWord "concat"; expressionList expression) <|>
  (do bareWord "coalesce"; discard (expressionList expression); return .computed []) <|>
  (do word "if"; arguments expression 3) <|>
  (do word "substr"; arguments expression 3 <|> arguments expression 2) <|>
  (do word "regex"; arguments expression 3 <|> arguments expression 2) <|>
  (do word "replace"; arguments expression 4 <|> arguments expression 3) <|>
  existence group

/-- A call of a function named by an IRI. -/
def functionCall (expression : Recognizer Shape) : Recognizer Shape := do
  discard iri
  expressionList expression

/-- Operands with operators in between. -/
def chain (operand : Recognizer Shape) (operator : Recognizer Unit) : Recognizer Shape := do
  match ← separated operand operator with
  | [shape] => return shape
  | parts => return .ofParts parts

/-- An expression from its innermost parts: signs, products, sums, one comparison, conjunctions and
disjunctions. What is negated is read twice. -/
def expressionOf (primary list : Recognizer Shape) : Recognizer Shape :=
  let signed : Recognizer Shape := do
    (do sign "!"; ahead primary) <|> sign "+" <|> sign "-"
    return .ofParts [← primary]
  let product := chain (signed <|> primary) (sign "*" <|> sign "/")
  let sum := chain product (sign "+" <|> sign "-")
  let comparison : Recognizer Shape := do
    let left ← sum
    let right ← maybe <|
      (do
        sign "=" <|> sign "!=" <|> sign ">=" <|> sign "<=" <|> sign ">" <|> sign "<"
        sum) <|>
      (do
        discard <| maybe (word "not")
        word "in"
        list)
    match right with
    | some right => return .ofParts [left, right]
    | none => return left
  chain (chain comparison (sign "&&")) (sign "||")

/-- An expression, with at most so many levels of brackets, given how to read a pattern. -/
def expression (group : Recognizer Unit) : Nat → Recognizer Shape
  | 0 => failure
  | depth + 1 =>
    let inner := expression group depth
    let primary : Recognizer Shape :=
      bracketed inner <|>
      (do
        discard iri
        return (← maybe (expressionList inner)).getD (.computed [])) <|>
      (do return .variable (← variableTerm)) <|>
      (do discard (stringLiteral <|> numericLiteral); return .computed []) <|>
      builtInCall group inner <|>
      (do discard booleanLiteral; return .computed [])
    expressionOf primary (expressionList inner)

/-- An expression in brackets, or a call: what can stand alone as a condition. -/
def constraint (group : Recognizer Unit) (depth : Nat) : Recognizer Shape :=
  let inner := expression group depth
  bracketed inner <|> functionCall inner <|> builtInCall group inner

end StreamQuery.Sparql
