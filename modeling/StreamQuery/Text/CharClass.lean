import StreamQuery.Text.CharRanges

/-!
# Character classes

The classes of characters that the grammars of this library distinguish. Each class treats ASCII
by the core predicates and consults a range table only above it, so that statements about ASCII
text never meet a table.
-/

namespace StreamQuery.Text

/-- What is said of the characters of a text is decided by going through the text. -/
instance (priority := 2000) decidableForallMem (p : Char → Prop) [DecidablePred p]
    (cs : List Char) : Decidable (∀ c ∈ cs, p c) :=
  List.decidableBAll p cs

/-- Whether a code point lies in one of the closed ranges of a table. -/
def inRanges (table : List (Nat × Nat)) (code : Nat) : Bool :=
  table.any fun range => range.1 ≤ code && code ≤ range.2

/-- The property Alphabetic, in the earlier edition of the standard. -/
def isWordLetter (c : Char) : Bool :=
  c.isAlpha || (128 ≤ c.toNat && inRanges alphabeticRanges c.toNat)

/-- A decimal digit of any script, in the earlier edition of the standard. -/
def isWordDigit (c : Char) : Bool :=
  c.isDigit || (128 ≤ c.toNat && inRanges decimalDigitRanges c.toNat)

/-- A character of a word: letters, marks, decimal digits, connectors and join controls. -/
def isWordChar (c : Char) : Bool :=
  isWordLetter c || isWordDigit c || c == '_' ||
    (128 ≤ c.toNat && inRanges joiningRanges c.toNat)

/-- The property Alphabetic. -/
def isAlphabetic (c : Char) : Bool :=
  isWordLetter c || (128 ≤ c.toNat && inRanges laterAlphabeticRanges c.toNat)

/-- A decimal digit of any script. -/
def isDecimalDigit (c : Char) : Bool :=
  isWordDigit c || (128 ≤ c.toNat && inRanges laterDecimalDigitRanges c.toNat)

/-- A letter or a number of any script. -/
def isAlphanumeric (c : Char) : Bool :=
  isAlphabetic c || isDecimalDigit c ||
    (128 ≤ c.toNat && inRanges otherNumberRanges c.toNat)

/-- The property White_Space. -/
def isBlank (c : Char) : Bool :=
  let n := c.toNat
  (9 ≤ n && n ≤ 13) || n == 32 || n == 0x85 || n == 0xA0 || n == 0x1680 ||
    (0x2000 ≤ n && n ≤ 0x200A) || n == 0x2028 || n == 0x2029 || n == 0x202F || n == 0x205F ||
    n == 0x3000

/-- Drops blank characters from both ends. -/
def trim (cs : List Char) : List Char :=
  ((cs.dropWhile isBlank).reverse.dropWhile isBlank).reverse

/-- Drops every trailing occurrence of one character. -/
def trimRight (c : Char) (cs : List Char) : List Char :=
  (cs.reverse.dropWhile (· == c)).reverse

/-- A hexadecimal digit. -/
def isHexDigit (c : Char) : Bool :=
  c.isDigit || ('a' ≤ c && c ≤ 'f') || ('A' ≤ c && c ≤ 'F')

/-- Letters, in ASCII, compared without case. -/
def sameLetters (a b : String) : Bool :=
  a.toList.map Char.toUpper == b.toList.map Char.toUpper

end StreamQuery.Text
