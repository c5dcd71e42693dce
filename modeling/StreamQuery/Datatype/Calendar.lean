import StreamQuery.Text.CharClass
import StreamQuery.Text.Decimal

/-!
# Dates and times

The texts that denote a day of the calendar or a moment. Moments have a strict form with an offset
from universal time and a loose form without one; days have only the loose form.
-/

namespace StreamQuery.Calendar

open Text

/-- Whether a year has a leap day. -/
def isLeapYear (year : Int) : Bool := year % 4 == 0 && (year % 100 != 0 || year % 400 == 0)

/-- The number of days of a month. -/
def daysInMonth (year : Int) (month : Nat) : Nat :=
  if month = 2 then if isLeapYear year then 29 else 28
  else if month = 4 ∨ month = 6 ∨ month = 9 ∨ month = 11 then 30
  else 31

/-- Whether a day exists, among the years that the calendar covers. -/
def isDay (year : Int) (month day : Nat) : Bool :=
  -262143 ≤ year && year ≤ 262142 && 1 ≤ month && month ≤ 12 && 1 ≤ day &&
    day ≤ daysInMonth year month

/-- Whether a time of day exists; any minute may have a leap second. -/
def isTime (hour minute second : Nat) : Bool := hour < 24 && minute < 60 && second ≤ 60

/-- Reads at least `least` and at most `most` digits. -/
def readDigits? (least most : Nat) (cs : List Char) : Option (Nat × List Char) :=
  let digits := (cs.take most).takeWhile Char.isDigit
  if digits.length < least then none else some (digitsValue digits, cs.drop digits.length)

/-- Reads one given character. -/
def readChar? (expected : Char) : List Char → Option (List Char)
  | c :: cs => if c = expected then some cs else none
  | [] => none

/-- Reads one or two digits, with blanks in front. -/
def readLoose? (cs : List Char) : Option (Nat × List Char) :=
  readDigits? 1 2 (cs.dropWhile isBlank)

/-- Reads a year with blanks in front: up to four digits, or any number of them behind a sign. -/
def readYear? (cs : List Char) : Option (Int × List Char) :=
  match cs.dropWhile isBlank with
  | '-' :: cs => (readDigits? 1 cs.length cs).map fun (n, rest) => (-(n : Int), rest)
  | '+' :: cs => (readDigits? 1 cs.length cs).map fun (n, rest) => ((n : Int), rest)
  | cs => (readDigits? 1 4 cs).map fun (n, rest) => ((n : Int), rest)

/-- Reads a fraction of a second, if there is one; a point needs a digit behind it. -/
def readFraction? : List Char → Option (List Char)
  | '.' :: cs =>
    if cs.head?.any Char.isDigit then some (cs.dropWhile Char.isDigit) else none
  | cs => some cs

/-- Reads a day in the loose form. -/
def readLooseDay? (cs : List Char) : Option (List Char) := do
  let (year, cs) ← readYear? cs
  let (month, cs) ← readLoose? (← readChar? '-' cs)
  let (day, cs) ← readLoose? (← readChar? '-' cs)
  if isDay year month day then return cs else none

/-- Whether a text denotes a day. -/
def isDate (cs : List Char) : Bool := readLooseDay? cs == some []

/-- Reads a moment in the loose form. -/
def readLooseMoment? (cs : List Char) : Option (List Char) := do
  let cs ← readLooseDay? cs
  let (hour, cs) ← readLoose? (← readChar? 'T' cs)
  let (minute, cs) ← readLoose? (← readChar? ':' cs)
  let (second, cs) ← readLoose? (← readChar? ':' cs)
  let cs ← readFraction? cs
  if isTime hour minute second then return cs else none

/-- Reads an offset from universal time: the letter Z, or a sign, hours and minutes. -/
def readOffset? : List Char → Option (List Char)
  | [] => none
  | sign :: cs =>
    if sign = 'Z' ∨ sign = 'z' then some cs
    else if sign = '+' ∨ sign = '-' ∨ sign = '−' then do
      let (hours, cs) ← readDigits? 2 2 cs
      let (minutes, cs) ← readDigits? 2 2 (← readChar? ':' cs)
      if hours < 24 ∧ minutes < 60 then return cs else none
    else none

/-- Reads a moment in the strict form. -/
def readStrictMoment? (cs : List Char) : Option (List Char) := do
  let (year, cs) ← readDigits? 4 4 cs
  let (month, cs) ← readDigits? 2 2 (← readChar? '-' cs)
  let (day, cs) ← readDigits? 2 2 (← readChar? '-' cs)
  let cs ← match cs with
    | 'T' :: cs | 't' :: cs | ' ' :: cs => some cs
    | _ => none
  let (hour, cs) ← readDigits? 2 2 cs
  let (minute, cs) ← readDigits? 2 2 (← readChar? ':' cs)
  let (second, cs) ← readDigits? 2 2 (← readChar? ':' cs)
  let cs ← readFraction? cs
  let cs ← readOffset? cs
  if isDay year month day && isTime hour minute second then return cs else none

/-- Whether a text denotes a moment. -/
def isDateTime (cs : List Char) : Bool :=
  readStrictMoment? cs == some [] || readLooseMoment? cs == some []

end StreamQuery.Calendar
