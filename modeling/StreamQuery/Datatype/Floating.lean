import StreamQuery.Text.Decimal

/-!
# Floating-point numerals

The decimal numerals that denote a finite double: those below the point from which on numbers are
rounded to infinity.
-/

namespace StreamQuery.Floating

open Text

/-- The smallest number that is rounded to infinity. -/
def overflow : Nat := (Nat.pow 2 54 - 1) * Nat.pow 2 970

/-- A numeral without its sign: its digits as one number, and the power of ten to scale it by. -/
structure Numeral where
  digits : Nat
  exponent : Int
  deriving DecidableEq, Repr

/-- Reads an exponent, behind its letter. -/
def readExponent? : List Char → Option Int
  | '-' :: cs => if cs ≠ [] ∧ cs.all Char.isDigit then some (-(digitsValue cs : Int)) else none
  | '+' :: cs => if cs ≠ [] ∧ cs.all Char.isDigit then some (digitsValue cs : Int) else none
  | cs => if cs ≠ [] ∧ cs.all Char.isDigit then some (digitsValue cs : Int) else none

/-- Reads a numeral without a sign; there is a digit before or behind the point. -/
def readNumeral? (cs : List Char) : Option Numeral :=
  let whole := cs.takeWhile Char.isDigit
  let rest := cs.dropWhile Char.isDigit
  let (fraction, rest) := match rest with
    | '.' :: rest => (rest.takeWhile Char.isDigit, rest.dropWhile Char.isDigit)
    | rest => ([], rest)
  if whole = [] ∧ fraction = [] then none
  else
    let digits := digitsValue (whole ++ fraction)
    match rest with
    | [] => some ⟨digits, -fraction.length⟩
    | e :: rest =>
      if e = 'e' ∨ e = 'E' then
        (readExponent? rest).map fun exponent => ⟨digits, exponent - fraction.length⟩
      else none

/-- Whether a numeral denotes a finite double. Numbers whose order of magnitude is far from the
bound are not written out. -/
def Numeral.isFinite (numeral : Numeral) : Bool :=
  let magnitude : Int := (decimal numeral.digits).length + numeral.exponent
  if numeral.digits = 0 ∨ magnitude < 300 then true
  else if 320 < magnitude then false
  else if 0 ≤ numeral.exponent then
    numeral.digits * Nat.pow 10 numeral.exponent.toNat < overflow
  else numeral.digits < overflow * Nat.pow 10 (-numeral.exponent).toNat

/-- Whether a text is a numeral of a finite double. -/
def isFiniteNumeral (cs : List Char) : Bool :=
  let unsigned := match cs with
    | '+' :: cs | '-' :: cs => cs
    | cs => cs
  (readNumeral? unsigned).any Numeral.isFinite

end StreamQuery.Floating
