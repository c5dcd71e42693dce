/-!
# Decimal numerals

Writing natural numbers in decimal and reading them back, with the bound that counts share.
-/

namespace StreamQuery.Text

/-- The number that a string of ASCII digits denotes. -/
def digitsValue (digits : List Char) : Nat :=
  digits.foldl (fun n c => 10 * n + (c.toNat - '0'.toNat)) 0

/-- The decimal digits of a number, without leading zeros. -/
def decimal (n : Nat) : List Char := Nat.toDigits 10 n

/-- The digits of a number, filled with zeros on the left up to a width. -/
def decimalPadded (width n : Nat) : List Char :=
  let digits := decimal n
  List.replicate (width - digits.length) '0' ++ digits

/-- One more than the largest count, which has 64 bits. -/
def countLimit : Nat := 18446744073709551616

/-- Reads a nonempty string of ASCII digits that denotes a number below the limit. -/
def digitsCount? (digits : List Char) : Option Nat :=
  if digits ≠ [] ∧ digits.all Char.isDigit then
    let n := digitsValue digits
    if n < countLimit then some n else none
  else none

/-- Reads a count: digits, with or without a plus sign in front. -/
def readCount? (text : String) : Option Nat :=
  match text.toList with
  | '+' :: digits => digitsCount? digits
  | digits => digitsCount? digits

end StreamQuery.Text
