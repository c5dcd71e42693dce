import StreamQuery.Graph

/-!
# N-Triples

Graphs as text, one triple a line.
-/

namespace StreamQuery

open Text

namespace Graph

/-- The lines of a graph, one triple each, in ascending order. -/
def nTriples (graph : Graph) : String :=
  let lines := (graph.triples.map Triple.text).mergeSort fun a b => a ≤ b
  String.join (lines.map (· ++ " .\n"))

end Graph

namespace NTriples

/-- A text with nothing but spaces and tabs taken off its front. -/
def skipSpaces (cs : List Char) : List Char := cs.dropWhile fun c => c == ' ' || c == '\t'

/-- The character that an escape denotes by so many hexadecimal digits, and what follows it. -/
def readCode? (digits : Nat) (cs : List Char) : Option (Char × List Char) :=
  let code := cs.take digits
  if code.length = digits ∧ code.all isHexDigit then
    (charOfCode? (hexDigitsValue code)).map fun c => (c, cs.drop digits)
  else none

/-- The character that a letter denotes behind a backslash. -/
def escaped? : Char → Option Char
  | 't' => some '\t'
  | 'b' => some '\x08'
  | 'n' => some '\n'
  | 'r' => some '\r'
  | 'f' => some '\x0C'
  | '"' => some '"'
  | '\'' => some '\''
  | '\\' => some '\\'
  | _ => none

/-- Reads the inside of an IRI up to its closing bracket. The first argument bounds the number of
characters and is at least their number. -/
def readIriText : Nat → List Char → Option (List Char × List Char)
  | 0, _ => none
  | bound + 1, cs =>
    match cs with
    | '>' :: rest => some ([], rest)
    | '\\' :: 'u' :: rest => do
      let (c, rest) ← readCode? 4 rest
      let (text, rest) ← readIriText bound rest
      return (c :: text, rest)
    | '\\' :: 'U' :: rest => do
      let (c, rest) ← readCode? 8 rest
      let (text, rest) ← readIriText bound rest
      return (c :: text, rest)
    | c :: rest =>
      if c ≤ ' ' || "<\"\x7b\x7d|^\x60\\".toList.contains c then none
      else do
        let (text, rest) ← readIriText bound rest
        return (c :: text, rest)
    | [] => none

/-- Reads an absolute IRI in brackets. -/
def readIri? : List Char → Option (Iri × List Char)
  | '<' :: cs => do
    let (text, rest) ← readIriText (cs.length + 1) cs
    let iri ← Iri.ofString? (String.ofList text)
    return (iri, rest)
  | _ => none

/-- Reads the inside of a string up to its closing quote, with the same bound. -/
def readStringText : Nat → List Char → Option (List Char × List Char)
  | 0, _ => none
  | bound + 1, cs =>
    match cs with
    | '"' :: rest => some ([], rest)
    | '\\' :: 'u' :: rest => do
      let (c, rest) ← readCode? 4 rest
      let (text, rest) ← readStringText bound rest
      return (c :: text, rest)
    | '\\' :: 'U' :: rest => do
      let (c, rest) ← readCode? 8 rest
      let (text, rest) ← readStringText bound rest
      return (c :: text, rest)
    | '\\' :: letter :: rest => do
      let c ← escaped? letter
      let (text, rest) ← readStringText bound rest
      return (c :: text, rest)
    | c :: rest =>
      if c = '\\' then none
      else do
        let (text, rest) ← readStringText bound rest
        return (c :: text, rest)
    | [] => none

/-- Reads a literal with its language or its datatype. What has the datatype of texts in a language
must name that language. -/
def readLiteral? : List Char → Option (Literal × List Char)
  | '"' :: cs => do
    let (value, rest) ← readStringText (cs.length + 1) cs
    let value := String.ofList value
    match skipSpaces rest with
    | '@' :: rest =>
      let isTagChar (c : Char) : Bool := c.isAlphanum || c == '-'
      let tag := rest.takeWhile isTagChar
      if LanguageTag.isWellFormed tag then
        some (.tagged value (String.ofList tag), rest.dropWhile isTagChar)
      else none
    | '^' :: '^' :: rest => do
      let (datatype, rest) ← readIri? (skipSpaces rest)
      if datatype = Vocabulary.rdfLangString then none
      else return (.typed value datatype.text, rest)
    | rest => some (.plain value, rest)
  | _ => none

/-- Reads a blank node; dots at the end do not belong to its label. -/
def readBlank? : List Char → Option (String × List Char)
  | '_' :: ':' :: cs =>
    match cs.head? with
    | some first =>
      if isLabelStart first then
        let run := cs.takeWhile fun c => isNameChar c || c == '.'
        let label := trimRight '.' run
        some (String.ofList label, cs.drop label.length)
      else none
    | none => none
  | _ => none

/-- Reads an IRI or a blank node. -/
def readNode? (cs : List Char) : Option (Node × List Char) :=
  match readIri? cs with
  | some (value, rest) => some (.iri value, rest)
  | none => (readBlank? cs).map fun (label, rest) => (.blank label, rest)

/-- Reads what stands behind a property. -/
def readObject? (cs : List Char) : Option (Object × List Char) :=
  match readNode? cs with
  | some (value, rest) => some (.node value, rest)
  | none => (readLiteral? cs).map fun (value, rest) => (.literal value, rest)

/-- Whether nothing but a comment is left of a line. -/
def isRest (cs : List Char) : Bool :=
  match skipSpaces cs with
  | [] => true
  | c :: _ => c == '#'

/-- Reads a line: at most one triple. -/
def readLine? (line : List Char) : Option (Option Triple) :=
  if isRest line then some none
  else do
    let (subject, rest) ← readNode? (skipSpaces line)
    let (predicate, rest) ← readIri? (skipSpaces rest)
    let (object, rest) ← readObject? (skipSpaces rest)
    match skipSpaces rest with
    | '.' :: rest => if isRest rest then some (some ⟨subject, predicate, object⟩) else none
    | _ => none

/-- The lines of a text. -/
def lines (text : String) : List (List Char) :=
  splitAll '\n' (text.toList.map fun c => if c = '\r' then '\n' else c)

end NTriples

namespace Graph

/-- Reads a graph from its N-Triples text. -/
def ofNTriples? (text : String) : Option Graph := do
  let triples ← (NTriples.lines text).mapM NTriples.readLine?
  return empty.addAll (triples.filterMap id)

end Graph

end StreamQuery
