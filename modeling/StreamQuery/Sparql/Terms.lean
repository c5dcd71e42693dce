import StreamQuery.Graph.TriplePattern
import StreamQuery.Iri.Reference
import StreamQuery.LanguageTag
import StreamQuery.Sparql.Recognizer
import StreamQuery.Text.Decimal
import StreamQuery.Text.NameChar

/-!
# Terms of the base language

Variables, IRIs, literals and blank nodes.
-/

namespace StreamQuery.Sparql

open Text Recognizer

/-! ## Names -/

/-- A character of the first plane, to which the names of the base language keep. -/
def isFirstPlane (c : Char) : Bool := c.toNat < 0x10000

/-- What a variable name, a label of a blank node or a local part can begin with. -/
def startsName (c : Char) : Bool := isFirstPlane c && isLabelStart c

/-- What continues any name but that of a variable. -/
def continuesName (c : Char) : Bool := isFirstPlane c && isNameChar c

/-- What continues the name of a variable. -/
def continuesVariable (c : Char) : Bool := isFirstPlane c && isVariableChar c

/-- The longest variable name at the start of a text. -/
def variableName? : List Char → Option (String × List Char)
  | c :: cs =>
    if startsName c then
      some (String.ofList (c :: cs.takeWhile continuesVariable), cs.dropWhile continuesVariable)
    else none
  | [] => none

/-- A variable. -/
def variableTerm : Recognizer String := do
  exactly "?" <|> exactly "$"
  let name ← take variableName?
  spaces
  return name

/-! ## IRIs -/

/-- The character that hexadecimal digits are the code of. -/
def coded? (digits : List Char) : Option Char :=
  if digits.all isHexDigit then charOfCode? (hexDigitsValue digits) else none

/-- What the inside of a reference stands for. Characters may be written by their codes. -/
def unescapeReference? : List Char → Option (List Char)
  | [] => some []
  | '\\' :: 'u' :: a :: b :: c :: d :: rest => do
    return (← coded? [a, b, c, d]) :: (← unescapeReference? rest)
  | '\\' :: 'U' :: a :: b :: c :: d :: e :: f :: g :: h :: rest => do
    return (← coded? [a, b, c, d, e, f, g, h]) :: (← unescapeReference? rest)
  | '\\' :: _ => none
  | c :: rest => (unescapeReference? rest).map (c :: ·)

/-- An IRI reference in brackets. -/
def iriReference : Recognizer (List Char) := do
  let text ← take fun
    | '<' :: cs =>
      match splitFirst '>' cs with
      | (text, some rest) => some (text, rest)
      | _ => none
    | _ => none
  let resolved ← known (IriGrammar.resolve? (← notes).base (← known (unescapeReference? text)))
  spaces
  return resolved

/-- The label of a prefix, without its colon. -/
def prefixLabel? (cs : List Char) : Option (String × List Char) :=
  let run := cs.takeWhile fun c => continuesName c || c == '.'
  let starts := match run with
    | c :: _ => isNameBase c
    | [] => true
  match cs.drop run.length with
  | ':' :: rest =>
    if starts && run.getLast? != some '.' then some (String.ofList run, rest) else none
  | _ => none

/-- One character of the local part of a name, or what stands for one. -/
def localChar? (starts : Bool) : List Char → Option (List Char × List Char)
  | '%' :: a :: b :: cs => if isHexDigit a && isHexDigit b then some (['%', a, b], cs) else none
  | '\\' :: c :: cs => if "_~.-!$&'()*+,;=/?#@%".toList.contains c then some ([c], cs) else none
  | c :: cs =>
    if c == ':' || (if starts then startsName c else continuesName c) then some ([c], cs) else none
  | [] => none

/-- Dots, at least one. -/
def dots? (cs : List Char) : Option (List Char × List Char) :=
  if cs.head? = some '.' then some (cs.takeWhile (· = '.'), cs.dropWhile (· = '.')) else none

/-- The local part of a name. Dots can stand in one place of it, which is not the end. -/
def localPart : Recognizer (List Char) := do
  let first ← take (localChar? true)
  let others ← many (take (localChar? false))
  let behindDots ← maybe do
    let dots ← take dots?
    return dots ++ (← many1 (take (localChar? false))).flatten
  return first ++ others.flatten ++ behindDots.getD []

/-- A prefixed name; its label is declared. If the name does not stand for an IRI, its local part is
left behind. -/
def prefixedName : Recognizer Iri := do
  let label ← take prefixLabel?
  let space ← known ((← notes).prefixes.get? label)
  let iri ← (do known (Iri.ofString? (space ++ String.ofList (← localPart)))) <|>
    known (Iri.ofString? space)
  spaces
  return iri

/-- An IRI or a name that stands for one. -/
def iri : Recognizer Iri :=
  (do known (Iri.ofString? (String.ofList (← iriReference)))) <|> prefixedName

/-! ## Literals -/

/-- The character that an escaped letter or sign stands for. -/
def escaped? : Char → Option Char
  | 't' => some '\t'
  | 'b' => some '\x08'
  | 'n' => some '\n'
  | 'r' => some '\r'
  | 'f' => some '\x0C'
  | '"' => some '"'
  | '\'' => some '\''
  | '\\' => some '\\'
  | _ => none

/-- What the inside of a string stands for. -/
def unescape? : List Char → Option (List Char)
  | [] => some []
  | '\\' :: 'u' :: a :: b :: c :: d :: rest => do
    return (← coded? [a, b, c, d]) :: (← unescape? rest)
  | '\\' :: 'U' :: a :: b :: c :: d :: e :: f :: g :: h :: rest => do
    return (← coded? [a, b, c, d, e, f, g, h]) :: (← unescape? rest)
  | '\\' :: c :: rest => do return (← escaped? c) :: (← unescape? rest)
  | ['\\'] => none
  | c :: rest => (unescape? rest).map (c :: ·)

/-- The inside of a string up to a closing quote, and what follows the quote. A string in short
quotes stays on its line. -/
def stringBody? (quote : List Char) : List Char → Option (List Char × List Char)
  | [] => none
  | cs@(c :: rest) =>
    match after? quote cs with
    | some rest => some ([], rest)
    | none =>
      if c = '\\' then
        match rest with
        | [] => none
        | e :: rest => (stringBody? quote rest).map fun (body, rest) => (c :: e :: body, rest)
      else if quote.length = 1 ∧ (c = '\n' ∨ c = '\r') then none
      else (stringBody? quote rest).map fun (body, rest) => (c :: body, rest)

/-- A string in quotes of any kind. -/
def string : Recognizer String := do
  let quoted (quote : String) : Recognizer (List Char) := do
    exactly quote
    take (stringBody? quote.toList)
  let body ← quoted "'''" <|> quoted "\"\"\"" <|> quoted "'" <|> quoted "\""
  let value ← known (unescape? body)
  spaces
  return String.ofList value

/-- The length of the longest language tag at the start of a text: letters, and behind hyphens
letters or digits. -/
def tagLength (isTagChar : Char → Bool) (length : Nat) : List Char → Nat
  | c :: d :: cs =>
    if isTagChar c then tagLength isTagChar (length + 1) (d :: cs)
    else if c == '-' && 0 < length && d.isAlphanum then
      tagLength Char.isAlphanum (length + 2) cs
    else length
  | [c] => if isTagChar c then length + 1 else length
  | [] => length

/-- A language tag. -/
def languageTag : Recognizer String := do
  exactly "@"
  let tag ← take fun cs =>
    let length := tagLength Char.isAlpha 0 cs
    some (cs.take length, cs.drop length)
  require (LanguageTag.isWellFormed tag)
  spaces
  return String.ofList tag

/-- A string with its language or its datatype. -/
def stringLiteral : Recognizer Literal := do
  let value ← string
  (do
    sign "^^"
    return .typed value (← iri).text) <|>
  (do return .tagged value (← languageTag)) <|>
  pure (.plain value)

/-- The length of an exponent. -/
def exponentLength : List Char → Nat
  | e :: cs =>
    if e == 'e' || e == 'E' then
      let signs := match cs with
        | '+' :: _ | '-' :: _ => 1
        | _ => 0
      match ((cs.drop signs).takeWhile Char.isDigit).length with
      | 0 => 0
      | n => n + signs + 1
    else 0
  | [] => 0

/-- What follows a number without a sign: an integer, a decimal with digits behind the point, or
either with an exponent, for which a bare point is enough. -/
def afterNumber? (cs : List Char) : Option (List Char) :=
  let whole := (cs.takeWhile Char.isDigit).length
  let rest := cs.drop whole
  match rest with
  | '.' :: others =>
    let fraction := (others.takeWhile Char.isDigit).length
    let behind := others.drop fraction
    match exponentLength behind with
    | 0 =>
      if 0 < fraction then some behind
      else if 0 < whole then some rest
      else none
    | n => if 0 < whole + fraction then some (behind.drop n) else none
  | _ => if 0 < whole then some (rest.drop (exponentLength rest)) else none

/-- The datatype of a number by its text. -/
def numberType (cs : List Char) : Iri :=
  if cs.contains 'e' || cs.contains 'E' then Vocabulary.xsdDouble
  else if cs.contains '.' then Vocabulary.xsdDecimal
  else Vocabulary.xsdInteger

/-- A number. Spaces may stand behind its sign. -/
def numericLiteral : Recognizer Literal := do
  let front ← maybe ((do sign "+"; return '+') <|> (do sign "-"; return '-'))
  let digits ← take fun cs =>
    (afterNumber? cs).map fun rest => (cs.take (cs.length - rest.length), rest)
  spaces
  return .typed (String.ofList (front.toList ++ digits)) (numberType digits).text

/-- A truth value. -/
def booleanLiteral : Recognizer Literal := do
  let value ← (do sign "true"; return "true") <|> (do sign "false"; return "false")
  return .typed value Vocabulary.xsdBoolean.text

/-- A literal. -/
def literal : Recognizer Literal := stringLiteral <|> numericLiteral <|> booleanLiteral

/-- An IRI or a literal. -/
def groundTerm : Recognizer Object :=
  (do return .ofIri (← iri)) <|> (do return .literal (← literal))

/-! ## Blank nodes -/

/-- The label of a blank node at the start of a text. -/
def blankLabel? : List Char → Option (String × List Char)
  | c :: cs =>
    if startsName c then
      let run := cs.takeWhile fun c => continuesName c || c == '.'
      let label := trimRight '.' run
      some (String.ofList (c :: label), cs.drop label.length)
    else none
  | [] => none

/-- Notes the use of a label, which fails if a group has started or ended since it was used
before. -/
def useLabel (label : String) : Recognizer Unit := do
  require !((← notes).closedLabels.contains label)
  note fun notes => { notes with freshLabels := label :: notes.freshLabels }

/-- The start or the end of a group, behind which the labels used so far are closed. -/
def closeLabels : Recognizer Unit :=
  note fun notes =>
    { notes with freshLabels := [], closedLabels := notes.freshLabels ++ notes.closedLabels }

/-- A label for a node without one. It is made of a sign that no label has and of the length of the
text behind it, so that no two nodes share it. -/
def unlabelled (mark : Char) (behind : List Char) : PatternTerm :=
  .blank (String.ofList (mark :: decimal behind.length))

/-- A blank node with a label, or an anonymous one. -/
def blankNode : Recognizer PatternTerm :=
  (do
    exactly "_:"
    let label ← take blankLabel?
    useLabel label
    spaces
    return .blank label) <|>
  (do
    sign "["
    let node := unlabelled '[' (← get)
    sign "]"
    return node)

/-- An empty pair of round brackets. -/
def emptyBrackets : Recognizer Unit := do
  sign "("
  sign ")"

/-- Any term. -/
def anyTerm : Recognizer PatternTerm :=
  (do return .variable (← variableTerm)) <|>
  (do return .ground (← groundTerm)) <|>
  blankNode <|>
  (do
    emptyBrackets
    return .ground (.ofIri Vocabulary.rdfNil))

/-- A variable or an IRI; answers the name of the variable. -/
def variableOrIri : Recognizer (List String) :=
  (do return [← variableTerm]) <|> (do discard iri; return [])

end StreamQuery.Sparql
