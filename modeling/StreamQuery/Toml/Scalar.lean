import StreamQuery.Datatype.Calendar
import StreamQuery.Datatype.Floating
import StreamQuery.Text.Scan
import StreamQuery.Toml

/-!
# TOML scalars

The values of TOML that have no parts: texts in four kinds of quotes, truth values, numbers, dates
and times.
-/

namespace StreamQuery.Toml

open Text

/-- A text without blanks at its front. -/
def skipBlanks (cs : List Char) : List Char := cs.dropWhile fun c => c == ' ' || c == '\t'

/-- What follows the end of a line. -/
def afterLineEnd? : List Char → Option (List Char)
  | '\n' :: cs => some cs
  | '\r' :: '\n' :: cs => some cs
  | _ => none

/-- A character that stands for itself inside a line. -/
def isInline (c : Char) : Bool := c == '\t' || (' ' ≤ c && c ≠ '\x7F')

/-! ## Texts -/

/-- Reads a character by its code, which has so many digits. -/
def readCode? (digits : Nat) (cs : List Char) : Option (Char × List Char) :=
  let code := cs.take digits
  if code.length = digits ∧ code.all isHexDigit then
    (charOfCode? (hexDigitsValue code)).map fun c => (c, cs.drop digits)
  else none

/-- Reads an escape sequence behind its backslash. -/
def readEscape? : List Char → Option (Char × List Char)
  | 'b' :: cs => some ('\x08', cs)
  | 't' :: cs => some ('\t', cs)
  | 'n' :: cs => some ('\n', cs)
  | 'f' :: cs => some ('\x0C', cs)
  | 'r' :: cs => some ('\r', cs)
  | 'e' :: cs => some ('\x1B', cs)
  | '"' :: cs => some ('"', cs)
  | '\\' :: cs => some ('\\', cs)
  | 'x' :: cs => readCode? 2 cs
  | 'u' :: cs => readCode? 4 cs
  | 'U' :: cs => readCode? 8 cs
  | _ => none

/-- Reads a text in double quotes behind its opening quote. The first argument bounds the number
of steps, here and below. -/
def readBasic : Nat → List Char → Option (List Char × List Char)
  | 0, _ => none
  | bound + 1, cs =>
    match cs with
    | '"' :: rest => some ([], rest)
    | '\\' :: rest => do
      let (c, rest) ← readEscape? rest
      let (text, rest) ← readBasic bound rest
      return (c :: text, rest)
    | c :: rest =>
      if isInline c then (readBasic bound rest).map fun (text, rest) => (c :: text, rest) else none
    | [] => none

/-- A text without blanks and line ends at its front. -/
def skipLines : List Char → List Char
  | '\r' :: '\n' :: cs => skipLines cs
  | c :: cs => if c == ' ' || c == '\t' || c == '\n' then skipLines cs else c :: cs
  | [] => []

/-- Reads a text of several lines behind its opening quotes. Up to two quotes before the closing
ones belong to the text, and a backslash at the end of a line joins it to what follows. -/
def readBasicLines : Nat → List Char → Option (List Char × List Char)
  | 0, _ => none
  | bound + 1, cs =>
    let next (c : Char) (rest : List Char) : Option (List Char × List Char) :=
      (readBasicLines bound rest).map fun (text, rest) => (c :: text, rest)
    match cs with
    | '"' :: '"' :: '"' :: '"' :: '"' :: rest => some (['"', '"'], rest)
    | '"' :: '"' :: '"' :: '"' :: rest => some (['"'], rest)
    | '"' :: '"' :: '"' :: rest => some ([], rest)
    | '\\' :: rest =>
      if (afterLineEnd? (skipBlanks rest)).isSome then readBasicLines bound (skipLines rest)
      else do
        let (c, rest) ← readEscape? rest
        next c rest
    | '\r' :: '\n' :: rest => do
      let (text, rest) ← next '\n' rest
      return ('\r' :: text, rest)
    | c :: rest => if c == '\n' || isInline c then next c rest else none
    | [] => none

/-- Reads a text in single quotes behind its opening quote. -/
def readLiteral? (cs : List Char) : Option (List Char × List Char) :=
  match cs.dropWhile (· ≠ '\'') with
  | _ :: rest =>
    let text := cs.takeWhile (· ≠ '\'')
    if text.all isInline then some (text, rest) else none
  | [] => none

/-- Reads a text of several lines in single quotes behind its opening quotes. -/
def readLiteralLines : List Char → Option (List Char × List Char)
  | '\'' :: '\'' :: '\'' :: '\'' :: '\'' :: rest => some (['\'', '\''], rest)
  | '\'' :: '\'' :: '\'' :: '\'' :: rest => some (['\''], rest)
  | '\'' :: '\'' :: '\'' :: rest => some ([], rest)
  | '\r' :: '\n' :: rest =>
    (readLiteralLines rest).map fun (text, rest) => ('\r' :: '\n' :: text, rest)
  | c :: rest =>
    if c == '\n' || isInline c then
      (readLiteralLines rest).map fun (text, rest) => (c :: text, rest)
    else none
  | [] => none

/-- A text without a line end at its front. -/
def withoutLineEnd (cs : List Char) : List Char := (afterLineEnd? cs).getD cs

/-- Reads a text with its quotes. -/
def readText? : List Char → Option (List Char × List Char)
  | '"' :: '"' :: '"' :: rest =>
    let rest := withoutLineEnd rest
    readBasicLines (rest.length + 1) rest
  | '\'' :: '\'' :: '\'' :: rest => readLiteralLines (withoutLineEnd rest)
  | '"' :: rest => readBasic (rest.length + 1) rest
  | '\'' :: rest => readLiteral? rest
  | _ => none

/-! ## Numbers -/

/-- The digits of a number, which may be grouped by single underscores between them. -/
def ungroup? (isDigit : Char → Bool) (cs : List Char) : Option (List Char) :=
  let groups := splitAll '_' cs
  if groups.all fun group => group ≠ [] ∧ group.all isDigit then some groups.flatten else none

/-- A number without its sign. -/
def unsigned : List Char → List Char
  | '+' :: cs | '-' :: cs => cs
  | cs => cs

/-- The digits of a number in decimal, without leading zeros. -/
def wholeDigits? (cs : List Char) : Option (List Char) :=
  if cs.head? = some '0' ∧ cs.length ≠ 1 then none else ungroup? Char.isDigit cs

/-- One more than the largest integer, which has 128 bits. -/
def integerLimit : Nat := Nat.pow 2 128

/-- Whether a text is an integer in decimal, with or without a sign. A negative one has a bit less
for its digits. -/
def isDecimal (cs : List Char) : Bool :=
  (wholeDigits? (unsigned cs)).any fun digits =>
    if cs.head? = some '-' then 2 * digitsValue digits ≤ integerLimit
    else digitsValue digits < integerLimit

/-- Whether a text is an integer in hexadecimal, octal or binary. -/
def isRadix : List Char → Bool
  | '0' :: 'x' :: cs =>
    (ungroup? isHexDigit cs).any fun digits => hexDigitsValue digits < integerLimit
  | '0' :: 'o' :: cs =>
    (ungroup? (fun c => '0' ≤ c && c ≤ '7') cs).any fun digits =>
      digits.foldl (fun n c => 8 * n + hexValue c) 0 < integerLimit
  | '0' :: 'b' :: cs =>
    (ungroup? (fun c => c == '0' || c == '1') cs).any fun digits =>
      (digits.dropWhile (· == '0')).length ≤ 128
  | _ => false

/-- The numeral of a floating-point number without its grouping. It has a fraction, an exponent or
both. -/
def floatNumeral? (cs : List Char) : Option (List Char) := do
  let isMark (c : Char) : Bool := c == '.' || c == 'e' || c == 'E'
  let whole ← wholeDigits? (cs.takeWhile fun c => !isMark c)
  let rest := cs.dropWhile fun c => !isMark c
  let (fraction, rest) ← match rest with
    | '.' :: rest => do
      let digits ← ungroup? Char.isDigit (rest.takeWhile fun c => !isMark c)
      pure ('.' :: digits, rest.dropWhile fun c => !isMark c)
    | [] => none
    | rest => pure ([], rest)
  match rest with
  | [] => return whole ++ fraction
  | '.' :: _ => none
  | _ :: rest =>
    let digits ← ungroup? Char.isDigit (unsigned rest)
    let sign := if rest.head? = some '-' then ['-'] else []
    return whole ++ fraction ++ 'e' :: sign ++ digits

/-- Whether a text is a floating-point number that is not too large. -/
def isFloat (cs : List Char) : Bool :=
  let cs := unsigned cs
  cs = ['i', 'n', 'f'] || cs = ['n', 'a', 'n'] ||
    (floatNumeral? cs).any Floating.isFiniteNumeral

/-- Whether a text is a number. -/
def isNumber (cs : List Char) : Bool := isDecimal cs || isRadix cs || isFloat cs

/-! ## Dates and times -/

/-- Reads a day and answers its text. -/
def readDay? (cs : List Char) : Option (List Char × List Char) := do
  let (year, rest) ← Calendar.readDigits? 4 4 cs
  let (month, rest) ← Calendar.readDigits? 2 2 (← Calendar.readChar? '-' rest)
  let (day, rest) ← Calendar.readDigits? 2 2 (← Calendar.readChar? '-' rest)
  if Calendar.isDay year month day then return (cs.take 10, rest) else none

/-- The text of a fraction of a second from its digits: nanoseconds, without zeros at the end. -/
def fractionText (digits : List Char) : List Char :=
  match trimRight '0' (digits.take 9) with
  | [] => []
  | digits => '.' :: digits

/-- Reads a time of day and answers its text. The seconds may be missing and are written all the
same. -/
def readTime? (cs : List Char) : Option (List Char × List Char) := do
  let (hour, rest) ← Calendar.readDigits? 2 2 cs
  let (minute, rest) ← Calendar.readDigits? 2 2 (← Calendar.readChar? ':' rest)
  match rest with
  | ':' :: rest => do
    let (second, rest) ← Calendar.readDigits? 2 2 rest
    let behind ← Calendar.readFraction? rest
    let fraction := fractionText ((rest.take (rest.length - behind.length)).drop 1)
    if Calendar.isTime hour minute second then return (cs.take 8 ++ fraction, behind) else none
  | rest =>
    if Calendar.isTime hour minute 0 then return (cs.take 5 ++ [':', '0', '0'], rest) else none

/-- The text of an offset from universal time; an offset of nothing has a plus sign. -/
def offsetText (cs : List Char) : List Char :=
  if cs = ['z'] then ['Z']
  else if cs = "-00:00".toList then "+00:00".toList
  else cs

/-- The text of a day, a time of day, or both with or without an offset, in the one form that each
of them has: a capital letter between day and time, and seconds with no more digits than they
need. -/
def momentText? (cs : List Char) : Option (List Char) :=
  match readTime? cs with
  | some (time, []) => some time
  | _ => do
    let (day, rest) ← readDay? cs
    match rest with
    | [] => return day
    | c :: rest =>
      if c = 'T' ∨ c = 't' ∨ c = ' ' then
        let (time, offset) ← readTime? rest
        if offset = [] ∨ Calendar.readOffset? offset = some [] then
          return day ++ 'T' :: time ++ offsetText offset
        else none
      else none

/-- A character of an unquoted scalar. -/
def isScalarChar (c : Char) : Bool :=
  c.isAlphanum || c == '+' || c == '-' || c == '_' || c == '.' || c == ':'

/-- Cuts an unquoted scalar off a text. A blank may stand between a day and a time. -/
def cutScalar (cs : List Char) : List Char × List Char :=
  let first := cs.takeWhile isScalarChar
  let rest := cs.dropWhile isScalarChar
  match rest with
  | ' ' :: c :: _ =>
    if (readDay? first).any (·.2.isEmpty) ∧ c.isDigit then
      (first ++ ' ' :: (rest.drop 1).takeWhile isScalarChar,
        (rest.drop 1).dropWhile isScalarChar)
    else (first, rest)
  | _ => (first, rest)

/-- The value of an unquoted scalar. -/
def scalar? (cs : List Char) : Option Toml :=
  if cs = ['t', 'r', 'u', 'e'] then some (.bool true)
  else if cs = ['f', 'a', 'l', 's', 'e'] then some (.bool false)
  else if isNumber cs then some .number
  else (momentText? cs).map fun text => .moment (String.ofList text)

end StreamQuery.Toml
