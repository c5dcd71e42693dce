import StreamQuery.Duration
import StreamQuery.Token
import StreamQuery.Text.Scan

/-!
# Reading tokens

Splits text into tokens. For each kind of token there is a function that tells how many characters
at the start of a text form such a token; the first kind that applies is taken. Between tokens
there are only spaces, line ends and comments.
-/

namespace StreamQuery

open Text

namespace Lexeme

/-- How many characters at the start of a text are in a class. -/
def count (allowed : Char → Bool) (cs : List Char) : Nat := (cs.takeWhile allowed).length

/-- The length of a run of at least one character of a class. -/
def count1? (allowed : Char → Bool) (cs : List Char) : Option Nat :=
  match count allowed cs with
  | 0 => none
  | n => some n

/-- The characters between the angle brackets of an IRI. -/
def isIriChar (c : Char) : Bool :=
  ' ' < c && !"<>\"\x7b\x7d|^\x60\\".toList.contains c

/-- The length of an IRI in angle brackets. -/
def iriLength? : List Char → Option Nat
  | '<' :: cs =>
    let n := count isIriChar cs
    if (cs.drop n).head? = some '>' then some (n + 2) else none
  | _ => none

/-- What continues a name in query text. -/
def isNameChar (c : Char) : Bool := isAlphanumeric c || c == '_'

/-- The length of a variable with its sigil. -/
def variableLength? : List Char → Option Nat
  | '?' :: cs | '$' :: cs => (count1? isNameChar cs).map (· + 1)
  | _ => none

/-- The length of the text up to and including the closing quote; a backslash protects the
character behind it. A short literal ends before the end of its line. -/
def stringEnd? (quote : List Char) (multiline : Bool) : List Char → Option Nat
  | [] => none
  | cs@(c :: rest) =>
    if (after? quote cs).isSome then some quote.length
    else if c = '\\' then
      match rest with
      | [] => none
      | _ :: rest => (stringEnd? quote multiline rest).map (· + 2)
    else if !multiline && (c == '\n' || c == '\r') then none
    else (stringEnd? quote multiline rest).map (· + 1)

/-- The quotes that open a text. -/
def openingQuote? : List Char → Option (List Char)
  | '"' :: '"' :: '"' :: _ => some ['"', '"', '"']
  | '\'' :: '\'' :: '\'' :: _ => some ['\'', '\'', '\'']
  | '"' :: _ => some ['"']
  | '\'' :: _ => some ['\'']
  | _ => none

/-- The length of a string literal with its quotes. -/
def literalLength? (cs : List Char) : Option Nat := do
  let quote ← openingQuote? cs
  let n ← stringEnd? quote (quote.length == 3) (cs.drop quote.length)
  return n + quote.length

/-- The length of a language tag with its at sign. -/
def languageLength? : List Char → Option Nat
  | '@' :: cs => do
    let n ← count1? Char.isAlpha cs
    return n + 1 + count (fun c => c.isAlphanum || c == '-') (cs.drop n)
  | _ => none

/-- The length of a sign. -/
def sign : List Char → Nat
  | '+' :: _ | '-' :: _ => 1
  | _ => 0

/-- The length of a fraction; a dot without digits behind it is none. -/
def fraction : List Char → Nat
  | '.' :: cs => match count Char.isDigit cs with
    | 0 => 0
    | n => n + 1
  | _ => 0

/-- The length of an exponent; without digits it is none. -/
def exponent : List Char → Nat
  | 'e' :: cs | 'E' :: cs =>
    let s := sign cs
    match count Char.isDigit (cs.drop s) with
    | 0 => 0
    | n => n + s + 1
  | _ => 0

/-- The length of a number with its sign. -/
def numberLength? (cs : List Char) : Option Nat := do
  let s := sign cs
  let n ← count1? Char.isDigit (cs.drop s)
  let whole := s + n
  let upToFraction := whole + fraction (cs.drop whole)
  return upToFraction + exponent (cs.drop upToFraction)

/-- The length of a blank node with its label. -/
def blankLength? : List Char → Option Nat
  | '_' :: ':' :: cs =>
    (count1? (fun c => isAlphanumeric c || c == '_' || c == '-') cs).map (· + 2)
  | _ => none

/-- What the label of a prefixed name is made of. -/
def isLabelChar (c : Char) : Bool := isAlphanumeric c || c == '_' || c == '-' || c == '.'

/-- What the local part of a prefixed name is made of. -/
def isLocalChar (c : Char) : Bool := isLabelChar c || c == ':' || c == '%'

/-- Whether a run of label characters can stand before the colon of a prefixed name. -/
def isLabel (label : List Char) : Bool :=
  !label.head?.any (fun c => c.isDigit || c == '-' || c == '.') && label.getLast? != some '.'

/-- The length of a prefixed name; dots at its end do not belong to it. -/
def prefixedLength? (cs : List Char) : Option Nat :=
  let label := cs.takeWhile isLabelChar
  match cs.drop label.length with
  | ':' :: rest =>
    if isLabel label then
      some (label.length + 1 + (trimRight '.' (rest.takeWhile isLocalChar)).length)
    else none
  | _ => none

/-- The length of a duration with a fraction, which has a dot inside. -/
def fractionalDurationLength? (cs : List Char) : Option Nat :=
  let run := trimRight '.' (cs.takeWhile fun c => c.isAlphanum || c == '.')
  if run.head? = some 'P' ∧ run.contains '.' ∧
      (DurationFields.ofLexical? (String.ofList run)).isSome then
    some run.length
  else none

/-- The length of a bare word. -/
def wordLength? (cs : List Char) : Option Nat :=
  if cs.head?.any fun c => isAlphabetic c || c == '_' then count1? isNameChar cs else none

/-- The length of a punctuation mark, `^^` apart. -/
def punctLength? : List Char → Option Nat
  | '&' :: '&' :: _ | '|' :: '|' :: _ | '!' :: '=' :: _ | '<' :: '=' :: _ | '>' :: '=' :: _ =>
    some 2
  | c :: _ => if "\x7b\x7d()[].,;=<>!+-*/^|?".toList.contains c then some 1 else none
  | [] => none

end Lexeme

namespace Token

/-- The token at the start of a text and the number of characters that form it. -/
def first? (cs : List Char) : Option (Token × Nat) :=
  let taken (n : Nat) : String := String.ofList (cs.take n)
  if let some n := Lexeme.iriLength? cs then
    some (.iri (String.ofList ((cs.take (n - 1)).drop 1)), n)
  else if let some n := Lexeme.variableLength? cs then
    some (.variable (String.ofList ((cs.take n).drop 1)), n)
  else if let some n := Lexeme.literalLength? cs then some (.literal (taken n), n)
  else if let some n := Lexeme.languageLength? cs then some (.language (taken n), n)
  else if let some n := Lexeme.numberLength? cs then some (.number (taken n), n)
  else if let some n := Lexeme.blankLength? cs then some (.blank (taken n), n)
  else if let some n := Lexeme.prefixedLength? cs then some (.prefixed (taken n), n)
  else if let some n := Lexeme.fractionalDurationLength? cs then some (.word (taken n), n)
  else if let some n := Lexeme.wordLength? cs then some (.word (taken n), n)
  else if (after? ['^', '^'] cs).isSome then some (.datatypeMark, 2)
  else if let some n := Lexeme.punctLength? cs then some (.punct (taken n), n)
  else none

/-- Whether a character separates tokens. -/
def isSpace (c : Char) : Bool := c == ' ' || c == '\t' || c == '\r' || c == '\n'

/-- The length of the spaces and comments at the start of a text; a comment ends before the end
of its line. -/
def gap (inComment : Bool) : List Char → Nat
  | [] => 0
  | c :: cs =>
    if inComment then gap (c ≠ '\n') cs + 1
    else if isSpace c then gap false cs + 1
    else if c = '#' then gap true cs + 1
    else 0

/-- The number of bytes that a text takes. -/
def byteSize : List Char → Nat
  | [] => 0
  | c :: cs => c.utf8Size + byteSize cs

end Token

/-- A token as it stands in a text: the characters that form it and the spaces and comments in
front of it. -/
structure Segment where
  gap : List Char
  lexeme : List Char
  token : Token
  deriving DecidableEq, Repr

/-- A token and the bytes of the text that it occupies. -/
structure Span where
  token : Token
  start : Nat
  stop : Nat
  deriving DecidableEq, Repr

/-- What keeps a text from being split into tokens. -/
inductive LexicalFault where
  | unterminatedLiteral
  | unexpectedCharacter (c : Char)
  deriving DecidableEq, Repr

/-- The wording of a lexical fault. -/
def LexicalFault.message : LexicalFault → String
  | .unterminatedLiteral => "unterminated string literal"
  | .unexpectedCharacter c => "unexpected character '" ++ c.toString ++ "'"

/-- A lexical fault and the byte at which it was met. -/
structure LexicalError where
  offset : Nat
  fault : LexicalFault
  deriving DecidableEq, Repr

namespace Token

/-- Splits a text into segments and the spaces and comments at its end. A fault comes with the text
from there on. -/
def segmentsOf (cs : List Char) :
    Except (LexicalFault × List Char) (List Segment × List Char) :=
  let space := cs.take (gap false cs)
  match _h : cs.drop (gap false cs) with
  | [] => .ok ([], space)
  | c :: rest =>
    match first? (c :: rest) with
    | some (token, n + 1) => do
      let (segments, last) ← segmentsOf (rest.drop n)
      return (⟨space, (c :: rest).take (n + 1), token⟩ :: segments, last)
    | _ =>
      if (Lexeme.openingQuote? (c :: rest)).isSome then .error (.unterminatedLiteral, c :: rest)
      else .error (.unexpectedCharacter c, c :: rest)
termination_by cs.length
decreasing_by
  have : (cs.drop (gap false cs)).length = rest.length + 1 := by rw [_h]; rfl
  simp only [List.length_drop] at *
  omega

/-- The segments of a text and the spaces and comments at its end. -/
def segments (text : String) : Except LexicalError (List Segment × List Char) :=
  (segmentsOf text.toList).mapError fun (fault, rest) =>
    ⟨byteSize text.toList - byteSize rest, fault⟩

/-- The places of segments that begin at a byte of a text. -/
def placesFrom (offset : Nat) : List Segment → List Span
  | [] => []
  | segment :: rest =>
    let start := offset + byteSize segment.gap
    let stop := start + byteSize segment.lexeme
    ⟨segment.token, start, stop⟩ :: placesFrom stop rest

/-- The tokens of a text with their places in it. -/
def spans (text : String) : Except LexicalError (List Span) :=
  (segments text).map fun (segments, _) => placesFrom 0 segments

/-- The tokens of a text. -/
def read (text : String) : Except LexicalError (List Token) :=
  (segments text).map fun (segments, _) => segments.map Segment.token

end Token

end StreamQuery
