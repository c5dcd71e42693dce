import StreamQuery.Text.CharClass

/-!
# Name characters

The character classes from which the names of the query grammar are built: variable names, blank
node labels and both halves of a prefixed name.
-/

namespace StreamQuery.Text

/-- A letter that can begin any name. -/
def isNameBase (c : Char) : Bool :=
  let n := c.toNat
  c.isAlpha || (0xC0 ≤ n && n ≤ 0xD6) || (0xD8 ≤ n && n ≤ 0xF6) || (0xF8 ≤ n && n ≤ 0x2FF) ||
    (0x370 ≤ n && n ≤ 0x37D) || (0x37F ≤ n && n ≤ 0x1FFF) || (0x200C ≤ n && n ≤ 0x200D) ||
    (0x2070 ≤ n && n ≤ 0x218F) || (0x2C00 ≤ n && n ≤ 0x2FEF) || (0x3001 ≤ n && n ≤ 0xD7FF) ||
    (0xF900 ≤ n && n ≤ 0xFDCF) || (0xFDF0 ≤ n && n ≤ 0xFFFD) || (0x10000 ≤ n && n ≤ 0xEFFFF)

/-- A letter or an underscore. -/
def isNameStart (c : Char) : Bool := isNameBase c || c == '_'

/-- A letter, an underscore or an ASCII digit: what a variable name or a label begins with. -/
def isLabelStart (c : Char) : Bool := isNameStart c || c.isDigit

/-- What continues a variable name. -/
def isVariableChar (c : Char) : Bool :=
  let n := c.toNat
  isLabelStart c || n == 0xB7 || (0x300 ≤ n && n ≤ 0x36F) || (0x203F ≤ n && n ≤ 0x2040)

/-- What continues any other name. -/
def isNameChar (c : Char) : Bool := isVariableChar c || c == '-'

end StreamQuery.Text
