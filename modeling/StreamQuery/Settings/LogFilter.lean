import StreamQuery.Datatype.Floating
import StreamQuery.Settings.Regex
import StreamQuery.Text.CharClass
import StreamQuery.Text.Decimal
import StreamQuery.Text.Scan

/-!
# Log filters

The texts that say which messages are logged: directives with commas between them, each with a
target, a span with fields in brackets, a level behind an equals sign, or several of these.

Blanks around a directive are skipped when its parts are told apart. The bytes of a part are counted
without the blanks in front, and yet the part is cut out of the directive with all of its blanks.
-/

namespace StreamQuery.LogFilter

open Text

/-- The names of the levels. -/
def levelNames : List String := ["error", "warn", "info", "debug", "trace", "off"]

/-- Whether a text is a level: its name, a number up to five, or nothing. -/
def isLevel (cs : List Char) : Bool :=
  let text := String.ofList cs
  cs.isEmpty || levelNames.any (sameLetters · text) || (readCount? text).any (· ≤ 5)

/-- Whether a text is a number with or without a sign and a fraction, infinite ones and those that
are none included. -/
def isNumber (cs : List Char) : Bool :=
  let unsigned := match cs with
    | '+' :: cs | '-' :: cs => cs
    | cs => cs
  (Floating.readNumeral? unsigned).isSome ||
    ["inf", "infinity", "nan"].any (sameLetters · (String.ofList unsigned))

/-- Whether the value of a field can be compared with a text: a number or a regular expression. -/
def isValue (cs : List Char) : Bool := isNumber cs || Regex.isValid cs

/-- Whether a text is a field, with or without a value. What stands behind a second equals sign
does not count. -/
def isField (cs : List Char) : Bool :=
  cs ≠ [] && match splitAll '=' cs with
    | _ :: value :: _ => isValue value
    | _ => true

/-- The characters from so many bytes on. -/
def dropBytes (cs : List Char) (bytes : Nat) : List Char :=
  match cs with
  | [] => []
  | c :: rest => if bytes = 0 then cs else dropBytes rest (bytes - c.utf8Size)

/-- The characters of the first so many bytes. -/
def takeBytes (cs : List Char) (bytes : Nat) : List Char :=
  cs.take (cs.length - (dropBytes cs bytes).length)

/-- Where in a directive a character stands. The numbers are the bytes up to the front of a part. -/
inductive Place where
  | front
  | target
  | span
  | field (start : Nat)
  | fieldsEnd
  | spanEnd
  | level (start : Nat)

/-- The place behind a character that has so many bytes before it. -/
def Place.after? (directive : List Char) (bytes : Nat) (c : Char) : Place → Option Place
  | front =>
    if c == '[' then some span
    else if c == '-' || c == ':' || c == '_' || isAlphanumeric c then some target
    else none
  | target =>
    if c == '=' then some (level (bytes + 1))
    else if c == '[' then some span
    else some target
  | span =>
    if c == ']' then some spanEnd
    else if c == '\x7b' then some (field (bytes + 1))
    else some span
  | field start =>
    if c == '\x7d' then
      if isField (takeBytes (dropBytes directive start) (bytes - start)) then some fieldsEnd
      else none
    else some (field start)
  | fieldsEnd => if c == ']' then some spanEnd else none
  | spanEnd => if c == '=' then some (level (bytes + 1)) else none
  | level start => some (level start)

/-- Whether a directive can end at a place. -/
def Place.isLast (directive : List Char) : Place → Bool
  | target | spanEnd => true
  | level start => isLevel (dropBytes directive start)
  | _ => false

/-- Whether a directive is well formed from a place on, given the characters behind it and the
bytes before. -/
def isWellFormedFrom (directive : List Char) (place : Place) (bytes : Nat) : List Char → Bool
  | [] => place.isLast directive
  | c :: cs =>
    (place.after? directive bytes c).any fun place =>
      isWellFormedFrom directive place (bytes + c.utf8Size) cs

/-- Whether a text is a directive. -/
def isDirective (cs : List Char) : Bool := isWellFormedFrom cs .front 0 (trim cs)

/-- Whether a text is a filter. Nothing need stand between two commas. -/
def isValid (text : String) : Bool :=
  (splitAll ',' text.toList).all fun directive => directive.isEmpty || isDirective directive

end StreamQuery.LogFilter
