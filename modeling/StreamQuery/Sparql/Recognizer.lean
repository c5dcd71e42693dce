import StreamQuery.SortedMap
import StreamQuery.Text.Scan

/-!
# Recognizers

Readers for the grammar of the base language. A recognizer takes characters off the front of a
text and answers what is needed to check the scope of names, or fails; of two alternatives the
first one that succeeds is taken. Every word and sign takes the spaces and comments behind it along.

Next to the text there are notes. A reader that fails gives the text back but not what it has noted:
names that were used in an alternative that came to nothing count as used.
-/

namespace StreamQuery.Sparql

open Text

/-- What is known from the front of a text. -/
structure Notes where
  base : Option (List Char)
  /-- The namespaces of the declared labels. -/
  prefixes : SortedMap String
  /-- The labels of blank nodes since the last start or end of a group. -/
  freshLabels : List String
  /-- The labels of blank nodes before that, which may not be used again. -/
  closedLabels : List String
  /-- For each enclosing selection, the innermost first, whether it has an aggregate. -/
  aggregates : List Bool

/-- The notes at the front of a text. -/
def Notes.start : Notes := ⟨none, SortedMap.empty, [], [], []⟩

/-- A reader of part of a text. -/
abbrev Recognizer := StateT (List Char) (OptionT (StateM Notes))

namespace Recognizer

/-- Succeeds on a condition. -/
def require (condition : Bool) : Recognizer Unit := if condition then pure () else failure

/-- What is there, or failure. -/
def known {α : Type} : Option α → Recognizer α
  | some value => pure value
  | none => failure

/-- The notes so far. -/
def notes : Recognizer Notes := getThe Notes

/-- Changes the notes. -/
def note (change : Notes → Notes) : Recognizer Unit := modifyThe Notes change

/-- Takes spaces, line ends and comments. -/
def skipSpace (inComment : Bool) : List Char → List Char
  | [] => []
  | c :: cs =>
    if inComment then skipSpace (c != '\n' && c != '\r') cs
    else if c == ' ' || c == '\t' || c == '\n' || c == '\r' then skipSpace false cs
    else if c == '#' then skipSpace true cs
    else c :: cs

/-- Takes spaces and comments. -/
def spaces : Recognizer Unit := modify (skipSpace false)

/-- Takes characters by a function on what is left, without spaces behind them. -/
def take {α : Type} (f : List Char → Option (α × List Char)) : Recognizer α := do
  let (value, rest) ← known (f (← get))
  set rest
  return value

/-- Takes exactly these characters. -/
def exactly (text : String) : Recognizer Unit :=
  take fun cs => (after? text.toList cs).map fun rest => ((), rest)

/-- Takes a sign and the spaces behind it. -/
def sign (text : String) : Recognizer Unit := do
  exactly text
  spaces

/-- What follows a word in any case, given in lower case. -/
def afterWord? : List Char → List Char → Option (List Char)
  | [], cs => some cs
  | w :: ws, c :: cs => if c.toLower = w then afterWord? ws cs else none
  | _ :: _, [] => none

/-- Takes a keyword in any case, given in lower case, without spaces behind it. -/
def bareWord (text : String) : Recognizer Unit :=
  take fun cs => (afterWord? text.toList cs).map fun rest => ((), rest)

/-- Takes a keyword in any case, given in lower case, and the spaces behind it. -/
def word (text : String) : Recognizer Unit := do
  bareWord text
  spaces

/-- Takes the first of several keywords that is there with what has to follow it. A keyword may
begin another one. -/
def afterAnyWord {α : Type} (recognizer : Recognizer α) : List String → Recognizer α
  | [] => failure
  | text :: texts => (do word text; recognizer) <|> afterAnyWord recognizer texts

/-- Takes what may be missing. -/
def maybe {α : Type} (recognizer : Recognizer α) : Recognizer (Option α) :=
  (do return some (← recognizer)) <|> pure none

/-- Reads something ahead without taking it, whether it is there or not. What it notes counts. -/
def ahead {α : Type} (recognizer : Recognizer α) : Recognizer Unit :=
  (do discard recognizer; failure) <|> pure ()

/-- Takes the same thing as often as it is there, at most so many times. -/
def manyUpTo {α : Type} (recognizer : Recognizer α) : Nat → Recognizer (List α)
  | 0 => pure []
  | bound + 1 => do
    match ← maybe recognizer with
    | some value => return value :: (← manyUpTo recognizer bound)
    | none => return []

/-- Takes the same thing as often as it is there. It takes a character each time. -/
def many {α : Type} (recognizer : Recognizer α) : Recognizer (List α) := do
  manyUpTo recognizer ((← get).length + 1)

/-- Takes the same thing at least once. -/
def many1 {α : Type} (recognizer : Recognizer α) : Recognizer (List α) := do
  return (← recognizer) :: (← many recognizer)

/-- Takes the same thing at least once, with a separator in between. -/
def separated {α : Type} (recognizer : Recognizer α) (separator : Recognizer Unit) :
    Recognizer (List α) := do
  return (← recognizer) :: (← many do separator; recognizer)

/-- Takes something in round brackets. -/
def bracketed {α : Type} (recognizer : Recognizer α) : Recognizer α := do
  sign "("
  let value ← recognizer
  sign ")"
  return value

/-- What is read of a text, if it is read to its end. -/
def readAll? {α : Type} (recognizer : Recognizer α) (text : String) : Option α :=
  match (recognizer.run text.toList).run.run .start with
  | (some (value, []), _) => some value
  | _ => none

end Recognizer

end StreamQuery.Sparql
