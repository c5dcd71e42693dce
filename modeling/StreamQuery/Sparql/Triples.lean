import StreamQuery.Sparql.Terms

/-!
# Triples of the base language

Property paths and the notations for several triples at once. What they stand for are triple
patterns.
-/

namespace StreamQuery.Sparql

open Recognizer

/-! ## Paths -/

/-- An IRI, or the letter that stands for the property between a resource and its class. -/
def property : Recognizer Iri := iri <|> (do sign "a"; return Vocabulary.rdfType)

/-- The path along any property but some, each of which is refused in one direction. -/
def excludingPath (refused : List (Bool × Iri)) : PropertyPath :=
  let side (inverse : Bool) : List Iri :=
    refused.filterMap fun entry => if entry.1 == inverse then some entry.2 else none
  match side false, side true with
  | forward, [] => .excluding forward
  | [], backward => .inverse (.excluding backward)
  | forward, backward => .choice (.excluding forward) (.inverse (.excluding backward))

/-- A negated property or a set of them. -/
def negatedSet : Recognizer PropertyPath := do
  let member : Recognizer (Bool × Iri) := do
    let inverse := (← maybe (sign "^")).isSome
    return (inverse, ← property)
  let refused ← bracketed (separated member (sign "|")) <|> (do return [← member])
  return excludingPath refused

/-- How often a step of a path is taken; a question mark must not begin a variable. -/
def pathModifier : Recognizer (PropertyPath → PropertyPath) :=
  (do sign "*"; return .repeated) <|>
  (do sign "+"; return .repeatedOnce) <|>
  (do
    exactly "?"
    require !((← get).head?.any startsName)
    spaces
    return .optional)

/-- A property path, with at most so many levels of brackets. -/
def path : Nat → Recognizer PropertyPath
  | 0 => failure
  | depth + 1 => do
    let primary : Recognizer PropertyPath :=
      (do return .property (← property)) <|> (do sign "!"; negatedSet) <|> bracketed (path depth)
    let step : Recognizer PropertyPath := do
      let inverse := (← maybe (sign "^")).isSome
      let step ← primary
      let step := ((← maybe pathModifier).getD id) step
      return if inverse then .inverse step else step
    let steps : Recognizer PropertyPath := do
      let first ← step
      return (← many do sign "/"; step).foldl .sequence first
    let first ← steps
    return (← many do sign "|"; steps).foldl .choice first

/-! ## Nodes and their properties -/

/-- A term together with patterns that say more about it. -/
structure Described where
  term : PatternTerm
  patterns : List TriplePattern

/-- The property of triples: a variable, or a path in patterns and an IRI in templates. -/
def verb (paths : Bool) (depth : Nat) : Recognizer Verb :=
  (do return .variable (← variableTerm)) <|>
  (if paths then do return .path (← path depth)
  else do return .path (.property (← property)))

/-- The properties of a node with their objects, given how to read an object; a semicolon may
stand for nothing. -/
def properties (paths : Bool) (depth : Nat) (object : Recognizer Described)
    (subject : PatternTerm) : Recognizer (List TriplePattern) := do
  let one : Recognizer (List TriplePattern) := do
    let verb ← verb paths depth
    let objects ← separated object (sign ",")
    return objects.flatMap fun object => ⟨subject, verb, object.term⟩ :: object.patterns
  let first ← one
  let others ← many do
    sign ";"
    return (← maybe one).getD []
  return first ++ others.flatten

/-- A collection of members, each with the node that holds it. -/
def collection : List (PatternTerm × Described) → Described
  | [] => ⟨.ground (.ofIri Vocabulary.rdfNil), []⟩
  | (node, member) :: members =>
    let rest := collection members
    let link (property : Iri) (object : PatternTerm) : TriplePattern :=
      ⟨node, .path (.property property), object⟩
    ⟨node, link Vocabulary.rdfFirst member.term :: link Vocabulary.rdfRest rest.term ::
      member.patterns ++ rest.patterns⟩

/-- A collection or a blank node with its properties, given how to read an object. -/
def nodeWithTriples (paths : Bool) (depth : Nat) (object : Recognizer Described) :
    Recognizer Described :=
  (do
    let members ← bracketed <| many1 do
      let node := unlabelled '(' (← get)
      return (node, ← object)
    return collection members) <|>
  (do
    sign "["
    let node := unlabelled '[' (← get)
    let patterns ← properties paths depth object node
    sign "]"
    return ⟨node, patterns⟩)

/-- An object, with at most so many levels of collections and nested nodes. -/
def object (paths : Bool) : Nat → Recognizer Described
  | 0 => failure
  | depth + 1 =>
    (do return ⟨← anyTerm, []⟩) <|> nodeWithTriples paths depth (object paths depth)

/-- Triples with one subject. -/
def sameSubject (paths : Bool) (depth : Nat) : Recognizer (List TriplePattern) :=
  let more := properties paths depth (object paths depth)
  (do more (← anyTerm)) <|>
  (do
    let subject ← nodeWithTriples paths depth (object paths depth)
    return subject.patterns ++ (← maybe (more subject.term)).getD [])

/-- Triples with dots in between and perhaps one at the end. -/
def triples (paths : Bool) (depth : Nat) : Recognizer (List TriplePattern) := do
  let patterns ← separated (sameSubject paths depth) (sign ".")
  discard <| maybe (sign ".")
  return patterns.flatten

end StreamQuery.Sparql
