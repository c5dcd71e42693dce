import StreamQuery.Toml.Scalar

/-!
# TOML documents

Reads the tables of a document from its text.
-/

namespace StreamQuery.Toml

open Text

/-- A character of a key without quotes. -/
def isKeyChar (c : Char) : Bool := c.isAlphanum || c == '_' || c == '-'

/-- Reads one part of a key. -/
def readKeyPart? (cs : List Char) : Option (String × List Char) :=
  match cs with
  | '"' :: rest => (readBasic (rest.length + 1) rest).map fun (text, rest) =>
      (String.ofList text, rest)
  | '\'' :: rest => (readLiteral? rest).map fun (text, rest) => (String.ofList text, rest)
  | cs =>
    let text := cs.takeWhile isKeyChar
    if text = [] then none else some (String.ofList text, cs.dropWhile isKeyChar)

/-- A key with its dots: the parts before its last one, and that one. -/
abbrev DottedKey := List String × String

/-- How deep values may be nested, and how many parts a key may have. -/
def deepest : Nat := 80

/-- Reads a key of at most so many parts and the blanks behind it. -/
def readKeyParts : Nat → List Char → Option (DottedKey × List Char)
  | 0, _ => none
  | bound + 1, cs => do
    let (part, rest) ← readKeyPart? cs
    match skipBlanks rest with
    | '.' :: rest =>
      let ((parts, last), rest) ← readKeyParts bound (skipBlanks rest)
      return ((part :: parts, last), rest)
    | rest => return (([], part), rest)

/-- Reads a key and the blanks behind it. -/
def readKey? (cs : List Char) : Option (DottedKey × List Char) := readKeyParts deepest cs

/-- A text without a comment at its front, unless the comment has a character that does not belong
there. -/
def skipComment? : List Char → Option (List Char)
  | '#' :: cs =>
    let rest := cs.dropWhile isInline
    if rest = [] ∨ (afterLineEnd? rest).isSome then some rest else none
  | cs => some cs

/-- A text without blanks, comments and line ends at its front. The first argument bounds the number
of steps, here and below. -/
def skipGaps : Nat → List Char → Option (List Char)
  | 0, _ => none
  | bound + 1, cs => do
    let rest ← skipComment? (skipBlanks cs)
    match afterLineEnd? rest with
    | some rest => skipGaps bound rest
    | none => return rest

/-- A text without the rest of a line, which holds nothing but a comment. -/
def endLine? (cs : List Char) : Option (List Char) := do
  let rest ← skipComment? (skipBlanks cs)
  if rest = [] then return [] else afterLineEnd? rest

mutual

/-- Reads a value, with so many levels below it. -/
def readValue : Nat → Nat → List Char → Option (Toml × List Char)
  | 0, _, _ => none
  | bound + 1, levels, cs =>
    match cs with
    | '[' :: rest =>
      match levels with
      | 0 => none
      | levels + 1 => (readItems bound levels rest).map fun (items, rest) => (.array items, rest)
    | '\x7b' :: rest =>
      match levels with
      | 0 => none
      | levels + 1 => (readEntries bound levels [] rest).map fun (entries, rest) =>
          (.table .inline entries, rest)
    | '"' :: _ | '\'' :: _ => (readText? cs).map fun (text, rest) =>
        (.string (String.ofList text), rest)
    | cs =>
      let (text, rest) := cutScalar cs
      (scalar? text).map fun value => (value, rest)

/-- Reads the items of an array up to its end. -/
def readItems : Nat → Nat → List Char → Option (List Toml × List Char)
  | 0, _, _ => none
  | bound + 1, levels, cs => do
    match ← skipGaps (cs.length + 1) cs with
    | ']' :: rest => return ([], rest)
    | rest =>
      let (item, rest) ← readValue bound levels rest
      match ← skipGaps (rest.length + 1) rest with
      | ',' :: rest =>
        let (items, rest) ← readItems bound levels rest
        return (item :: items, rest)
      | ']' :: rest => return ([item], rest)
      | _ => none

/-- Reads further entries of a table in braces up to its end. -/
def readEntries : Nat → Nat → Entries → List Char → Option (Entries × List Char)
  | 0, _, _, _ => none
  | bound + 1, levels, entries, cs => do
    match ← skipGaps (cs.length + 1) cs with
    | '\x7d' :: rest => return (entries, rest)
    | rest =>
      let ((path, key), rest) ← readKey? rest
      let rest ← match ← skipGaps (rest.length + 1) rest with
        | '=' :: rest => skipGaps (rest.length + 1) rest
        | _ => none
      let (value, rest) ← readValue bound levels rest
      let entries ← set entries path key value
      match ← skipGaps (rest.length + 1) rest with
      | ',' :: rest => readEntries bound levels entries rest
      | '\x7d' :: rest => return (entries, rest)
      | _ => none

end

/-- A document that is being read: its tables so far, and the way to the table that is open. -/
structure Progress where
  entries : Entries
  current : List String

/-- Reads one line, or the lines of one key and its value. -/
def readLine? (progress : Progress) (cs : List Char) : Option (Progress × List Char) :=
  match cs with
  | '[' :: '[' :: rest => do
    let ((path, key), rest) ← readKey? (skipBlanks rest)
    match rest with
    | ']' :: ']' :: rest =>
      let entries ← openSection progress.entries path key
      return (⟨entries, path ++ [key]⟩, ← endLine? rest)
    | _ => none
  | '[' :: rest => do
    let ((path, key), rest) ← readKey? (skipBlanks rest)
    match rest with
    | ']' :: rest =>
      let entries ← openTable progress.entries path key
      return (⟨entries, path ++ [key]⟩, ← endLine? rest)
    | _ => none
  | cs => do
    let ((path, key), rest) ← readKey? cs
    match rest with
    | '=' :: rest =>
      let (value, rest) ← readValue (2 * rest.length + 2) deepest (skipBlanks rest)
      let entries ← setIn progress.entries progress.current path key value
      return (⟨entries, progress.current⟩, ← endLine? rest)
    | _ => none

/-- Reads the rest of a document. -/
def readDocument : Nat → Progress → List Char → Option Entries
  | 0, _, _ => none
  | bound + 1, progress, cs => do
    match ← skipGaps (cs.length + 1) cs with
    | [] => return progress.entries
    | rest =>
      let (progress, rest) ← readLine? progress rest
      readDocument bound progress rest

/-- Reads a document; a byte order mark may stand in front. -/
def parse? (text : String) : Option Entries :=
  let cs := match text.toList with
    | '\uFEFF' :: cs => cs
    | cs => cs
  readDocument (cs.length + 1) ⟨[], []⟩ cs

end StreamQuery.Toml
