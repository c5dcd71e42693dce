import StreamQuery.Template.Bindings

/-!
# Instantiation

Puts the values of arguments into the text of a template's query. Variables are replaced token by
token; afterwards typed literals in the slots of windows are written in their bare form.
-/

namespace StreamQuery

open Text

namespace Bindings

/-- What stands for a token: the text of its value if it is a bound variable, and otherwise the
token as it was written. -/
def replacement (bindings : Bindings) (segment : Segment) : List Char :=
  match segment.token with
  | .variable name =>
    match bindings.get? name with
    | some value => value.text.toList
    | none => segment.lexeme
  | _ => segment.lexeme

/-- A text with every bound variable replaced by its value. -/
def substitute (bindings : Bindings) (text : String) : Except ParseError String := do
  let (segments, last) ← (Token.segments text).mapError .lexical
  return String.ofList
    (segments.flatMap (fun segment => segment.gap ++ bindings.replacement segment) ++ last)

end Bindings

namespace WindowSlot

/-- The ASCII letter that a letter is compared as, in any case. Two letters above ASCII have an
ASCII letter as their other case. -/
def foldCase (c : Char) : Char :=
  if c = '\u017F' then 's' else if c = '\u212A' then 'k' else c.toLower

/-- The length of a word at the start of a text, in any case, if it is there. -/
def wordLength? (word : List Char) (cs : List Char) : Option Nat :=
  if (cs.take word.length).map foldCase = word then some word.length else none

/-- The keywords in front of a slot. -/
def keywords : List (List Char) :=
  ["range", "step", "item", "from", "to"].map String.toList

/-- The length of the blanks at the start of a text. -/
def blanks (cs : List Char) : Nat := (cs.takeWhile isBlank).length

/-- The length of the word `NOW` and a hyphen, with the blanks behind both, or nothing. -/
def nowLength (cs : List Char) : Nat :=
  match wordLength? ['n', 'o', 'w'] cs with
  | none => 0
  | some n =>
    let n := n + blanks (cs.drop n)
    match cs.drop n with
    | '-' :: rest => n + 1 + blanks rest
    | _ => 0

/-- A character of a value that needs no quotes. -/
def isBareChar (c : Char) : Bool :=
  let c := foldCase c
  c.isAlphanum || c == '.' || c == '+' || c == '-'

/-- What follows the quote of a typed value, up to the end of its datatype. -/
def datatypeSuffixes : List (List Char) :=
  ["\"^^<http://www.w3.org/2001/xmlschema#duration>",
    "\"^^<http://www.w3.org/2001/xmlschema#integer>"].map String.toList

/-- A slot with a typed value at the start of a text: the part that is kept and the length of the
whole. -/
def typed? (cs : List Char) : Option (List Char × Nat) := do
  let keyword ← keywords.findSome? (wordLength? · cs)
  let space := blanks (cs.drop keyword)
  if space = 0 then none
  let head := keyword + space + nowLength (cs.drop (keyword + space))
  match cs.drop head with
  | '"' :: rest =>
    let value := rest.takeWhile isBareChar
    if value.isEmpty then none
    let suffix ← datatypeSuffixes.findSome? (wordLength? · (rest.drop value.length))
    return (cs.take head ++ value, head + 1 + value.length + suffix)
  | _ => none

/-- Cleans a text behind a character, some characters of which are already dealt with. A keyword
begins where a word begins. -/
def cleanBehind (last : Option Char) (skip : Nat) : List Char → List Char
  | [] => []
  | c :: cs =>
    match skip with
    | skip + 1 => cleanBehind (some c) skip cs
    | 0 =>
      if last.any isWordChar then c :: cleanBehind (some c) 0 cs
      else
        match typed? (c :: cs) with
        | some (kept, length) => kept ++ cleanBehind (some c) (length - 1) cs
        | none => c :: cleanBehind (some c) 0 cs

/-- A text in which the typed durations and counts in the slots of windows stand bare. -/
def clean (text : String) : String := String.ofList (cleanBehind none 0 text.toList)

end WindowSlot

namespace Template

/-- The text of a template's query with values in place of its arguments. -/
def instantiateUnchecked (template : Template) (bindings : Bindings) :
    Except TemplateError String := do
  let text ← (bindings.substitute template.body.nativeText).mapError .parse
  return WindowSlot.clean text

/-- As `instantiateUnchecked`, for bindings that are what the template asks for. -/
def instantiate (template : Template) (bindings : Bindings) : Except TemplateError String :=
  match ArgumentChecker.standard.validate template bindings with
  | [] => template.instantiateUnchecked bindings
  | errors => .error (.validation errors)

/-- The query that a template becomes. -/
def instantiateQuery (template : Template) (bindings : Bindings) :
    Except TemplateError Query := do
  let text ← template.instantiate bindings
  (Query.parse text).mapError .instantiation

end Template

end StreamQuery
