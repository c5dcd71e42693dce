import StreamQuery.Text.CharClass
import StreamQuery.Text.Scan

/-!
# JSON

The values of JSON, read from text and written in indented lines. Objects keep their members in
order and with repetitions, so that their readers can judge them.
-/

namespace StreamQuery

open Text

/-- A JSON value. -/
inductive Json where
  | null
  | bool (value : Bool)
  | number
  /-- A string, or none if it holds half of a pair of surrogates. -/
  | string (text : Option String)
  | array (items : List Json)
  | object (members : List (Option String × Json))

namespace Json

/-- A text without space at its front. -/
def skipSpace (cs : List Char) : List Char :=
  cs.dropWhile fun c => c == ' ' || c == '\t' || c == '\n' || c == '\r'

/-- One unit of a string: a character, or half of a pair of surrogates. -/
inductive Piece where
  | char (c : Char)
  | high (code : Nat)
  | low (code : Nat)

/-- The unit of a code of sixteen bits. -/
def Piece.ofCode (code : Nat) : Piece :=
  if 0xD800 ≤ code ∧ code < 0xDC00 then .high code
  else if 0xDC00 ≤ code ∧ code < 0xE000 then .low code
  else .char (Char.ofNat code)

/-- The characters of units, if every half has its other half behind it. -/
def joinPieces : List Piece → Option (List Char)
  | [] => some []
  | .char c :: rest => (joinPieces rest).map (c :: ·)
  | .high high :: .low low :: rest =>
    let code := 0x10000 + (high - 0xD800) * 0x400 + (low - 0xDC00)
    (joinPieces rest).map (Char.ofNat code :: ·)
  | _ => none

/-- Reads the inside of a string up to its closing quote. The first argument bounds the number of
units. -/
def readPieces : Nat → List Char → Option (List Piece × List Char)
  | 0, _ => none
  | bound + 1, cs =>
    match cs with
    | '"' :: rest => some ([], rest)
    | '\\' :: 'u' :: a :: b :: c :: d :: rest =>
      if [a, b, c, d].all isHexDigit then do
        let (pieces, rest) ← readPieces bound rest
        return (.ofCode (hexDigitsValue [a, b, c, d]) :: pieces, rest)
      else none
    | '\\' :: e :: rest => do
      let c ← match e with
        | '"' => some '"'
        | '\\' => some '\\'
        | '/' => some '/'
        | 'b' => some '\x08'
        | 'f' => some '\x0C'
        | 'n' => some '\n'
        | 'r' => some '\r'
        | 't' => some '\t'
        | _ => none
      let (pieces, rest) ← readPieces bound rest
      return (.char c :: pieces, rest)
    | c :: rest =>
      if c < ' ' || c = '\\' then none
      else do
        let (pieces, rest) ← readPieces bound rest
        return (.char c :: pieces, rest)
    | [] => none

/-- Reads a string behind its opening quote. -/
def readString? (cs : List Char) : Option (Option String × List Char) :=
  (readPieces (cs.length + 1) cs).map fun (pieces, rest) =>
    ((joinPieces pieces).map String.ofList, rest)

/-- Takes at least one digit. -/
def afterDigits? (cs : List Char) : Option (List Char) :=
  if cs.head?.any Char.isDigit then some (cs.dropWhile Char.isDigit) else none

/-- Takes a number. -/
def afterNumber? (cs : List Char) : Option (List Char) := do
  let cs := match cs with
    | '-' :: rest => rest
    | cs => cs
  let cs ← match cs with
    | '0' :: rest => some rest
    | cs => afterDigits? cs
  let cs ← match cs with
    | '.' :: rest => afterDigits? rest
    | cs => some cs
  match cs with
  | e :: rest =>
    if e = 'e' ∨ e = 'E' then
      match rest with
      | '+' :: rest | '-' :: rest => afterDigits? rest
      | rest => afterDigits? rest
    else some cs
  | [] => some []

mutual

/-- Reads a value. The first argument bounds the number of steps and is at least twice the number
of characters. -/
def readValue : Nat → List Char → Option (Json × List Char)
  | 0, _ => none
  | bound + 1, cs =>
    match skipSpace cs with
    | '"' :: rest => (readString? rest).map fun (text, rest) => (.string text, rest)
    | '[' :: rest =>
      match skipSpace rest with
      | ']' :: rest => some (.array [], rest)
      | rest => (readItems bound rest).map fun (items, rest) => (.array items, rest)
    | '\x7b' :: rest =>
      match skipSpace rest with
      | '\x7d' :: rest => some (.object [], rest)
      | rest => (readMembers bound rest).map fun (members, rest) => (.object members, rest)
    | 'n' :: 'u' :: 'l' :: 'l' :: rest => some (.null, rest)
    | 't' :: 'r' :: 'u' :: 'e' :: rest => some (.bool true, rest)
    | 'f' :: 'a' :: 'l' :: 's' :: 'e' :: rest => some (.bool false, rest)
    | rest => (afterNumber? rest).map fun rest => (.number, rest)

/-- Reads the items of an array up to its end. -/
def readItems : Nat → List Char → Option (List Json × List Char)
  | 0, _ => none
  | bound + 1, cs => do
    let (item, rest) ← readValue bound cs
    match skipSpace rest with
    | ',' :: rest =>
      let (items, rest) ← readItems bound rest
      return (item :: items, rest)
    | ']' :: rest => return ([item], rest)
    | _ => none

/-- Reads the members of an object up to its end. -/
def readMembers : Nat → List Char → Option (List (Option String × Json) × List Char)
  | 0, _ => none
  | bound + 1, cs => do
    let (name, rest) ← match skipSpace cs with
      | '"' :: rest => readString? rest
      | _ => none
    let (value, rest) ← match skipSpace rest with
      | ':' :: rest => readValue bound rest
      | _ => none
    match skipSpace rest with
    | ',' :: rest =>
      let (members, rest) ← readMembers bound rest
      return ((name, value) :: members, rest)
    | '\x7d' :: rest => return ([(name, value)], rest)
    | _ => none

end

/-- Reads a text that is one value. -/
def parse? (text : String) : Option Json :=
  match readValue (2 * text.length + 2) text.toList with
  | some (value, rest) => if (skipSpace rest).isEmpty then some value else none
  | none => none

/-- One character of a string. -/
def escapeChar (c : Char) : List Char :=
  match c with
  | '"' => ['\\', '"']
  | '\\' => ['\\', '\\']
  | '\x08' => ['\\', 'b']
  | '\x0C' => ['\\', 'f']
  | '\n' => ['\\', 'n']
  | '\r' => ['\\', 'r']
  | '\t' => ['\\', 't']
  | c => if c < ' ' then '\\' :: 'u' :: (hexCode c.toNat).map Char.toLower else [c]

/-- A string in quotes. -/
def quoted (text : String) : String :=
  String.ofList ('"' :: text.toList.flatMap escapeChar ++ ['"'])

/-- A value that can be written. -/
inductive Document where
  | bool (value : Bool)
  | string (text : String)
  | array (items : List Document)
  | object (members : List (String × Document))

/-- The start of a line so many levels in. -/
def lineStart (depth : Nat) : String := "\n" ++ String.ofList (List.replicate (2 * depth) ' ')

mutual

/-- A value in lines, each level two spaces further in. -/
def Document.render (depth : Nat) : Document → String
  | .bool true => "true"
  | .bool false => "false"
  | .string text => quoted text
  | .array [] => "[]"
  | .array (item :: items) =>
    "[" ++ lineStart (depth + 1) ++ item.render (depth + 1) ++
      renderItems (depth + 1) items ++ lineStart depth ++ "]"
  | .object [] => "\x7b\x7d"
  | .object ((name, value) :: members) =>
    "\x7b" ++ lineStart (depth + 1) ++ quoted name ++ ": " ++ value.render (depth + 1) ++
      renderMembers (depth + 1) members ++ lineStart depth ++ "\x7d"

/-- Further items of an array. -/
def renderItems (depth : Nat) : List Document → String
  | [] => ""
  | item :: items => "," ++ lineStart depth ++ item.render depth ++ renderItems depth items

/-- Further members of an object. -/
def renderMembers (depth : Nat) : List (String × Document) → String
  | [] => ""
  | (name, value) :: members =>
    "," ++ lineStart depth ++ quoted name ++ ": " ++ value.render depth ++
      renderMembers depth members

end

end Json

end StreamQuery
