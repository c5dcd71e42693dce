import StreamQuery.Text.CharClass
import StreamQuery.Text.Decimal

/-!
# Durations

The lexical form of `xsd:duration`, the day-time durations that windows are measured in, and
their text in the unit tables of the query dialects.
-/

namespace StreamQuery

open Text

/-- The nanoseconds of a second. -/
def nanosPerSecond : Nat := 1000000000

/-- A length of time: whole seconds and a fraction in nanoseconds. -/
structure Duration where
  seconds : Nat
  nanos : Nat
  seconds_lt : seconds < countLimit
  nanos_lt : nanos < nanosPerSecond
  deriving DecidableEq

/-- Why a text does not denote a length of time; each cause keeps the text. -/
inductive DurationError where
  | invalid (text : String)
  | indeterminate (text : String)
  | negative (text : String)
  deriving DecidableEq, Repr

/-- The wording of a duration error. -/
def DurationError.message : DurationError → String
  | .invalid text => s!"'{text}' is not a valid xsd:duration"
  | .indeterminate text => s!"'{text}' has year or month components and no fixed length"
  | .negative text => s!"'{text}' is a negative duration"

/-- The components of an `xsd:duration` lexical form; an absent one counts as zero. -/
structure DurationFields where
  negative : Bool
  years : Nat
  months : Nat
  days : Nat
  hours : Nat
  minutes : Nat
  seconds : Nat
  nanos : Nat
  deriving DecidableEq, Repr

namespace DurationFields

/-- Whether the duration has the same length wherever it starts. -/
def isDayTime (fields : DurationFields) : Bool :=
  fields.years == 0 && fields.months == 0

/-- The digits at the start of a text, as a number below the count limit, and what follows. -/
def leadingCount? (cs : List Char) : Option (Nat × List Char) :=
  (digitsCount? (cs.takeWhile Char.isDigit)).map fun n => (n, cs.dropWhile Char.isDigit)

/-- Reads a number and the designator behind it; otherwise reads nothing. -/
def readComponent (designator : Char) (cs : List Char) : Option Nat × List Char :=
  match leadingCount? cs with
  | some (n, c :: rest) => if c = designator then (some n, rest) else (none, cs)
  | _ => (none, cs)

/-- A fraction of a second in nanoseconds: one to nine digits after the point, filled with zeros on
the right. -/
def fractionNanos? (digits : List Char) : Option Nat :=
  if digits ≠ [] ∧ digits.length ≤ 9 then
    some (digitsValue (digits ++ List.replicate (9 - digits.length) '0'))
  else none

/-- Reads the seconds component, with or without a fraction; otherwise reads nothing. -/
def readSeconds (cs : List Char) : Option (Nat × Nat) × List Char :=
  match leadingCount? cs with
  | some (n, 'S' :: rest) => (some (n, 0), rest)
  | some (n, '.' :: rest) =>
    match fractionNanos? (rest.takeWhile Char.isDigit), rest.dropWhile Char.isDigit with
    | some nanos, 'S' :: rest => (some (n, nanos), rest)
    | _, _ => (none, cs)
  | _ => (none, cs)

/-- The time part, after the designator `T`; at least one of its components is required. -/
def readTime? (cs : List Char) :
    Option ((Option Nat × Option Nat × Option (Nat × Nat)) × List Char) :=
  let (hours, cs) := readComponent 'H' cs
  let (minutes, cs) := readComponent 'M' cs
  let (seconds, cs) := readSeconds cs
  if hours.isSome || minutes.isSome || seconds.isSome then some ((hours, minutes, seconds), cs)
  else none

/-- Reads what follows the sign and the designator `P`, to the end of the text. -/
def ofBody? (negative : Bool) (cs : List Char) : Option DurationFields :=
  let (years, cs) := readComponent 'Y' cs
  let (months, cs) := readComponent 'M' cs
  let (days, cs) := readComponent 'D' cs
  let date : DurationFields :=
    ⟨negative, years.getD 0, months.getD 0, days.getD 0, 0, 0, 0, 0⟩
  match cs with
  | [] => if years.isSome || months.isSome || days.isSome then some date else none
  | 'T' :: cs =>
    match readTime? cs with
    | some ((hours, minutes, seconds), []) =>
      let (seconds, nanos) := seconds.getD (0, 0)
      some { date with
        hours := hours.getD 0, minutes := minutes.getD 0, seconds := seconds, nanos := nanos }
    | _ => none
  | _ => none

/-- Reads an `xsd:duration` lexical form; blanks around it do not count. -/
def ofLexical? (text : String) : Option DurationFields :=
  match trim text.toList with
  | '-' :: 'P' :: cs => ofBody? true cs
  | 'P' :: cs => ofBody? false cs
  | _ => none

/-- The whole seconds of the day-time components. -/
def totalSeconds (fields : DurationFields) : Nat :=
  86400 * fields.days + 3600 * fields.hours + 60 * fields.minutes + fields.seconds

end DurationFields

namespace Duration

/-- Reads any `xsd:duration` lexical form. -/
def parseFields (text : String) : Except DurationError DurationFields :=
  match DurationFields.ofLexical? text with
  | some fields => .ok fields
  | none => .error (.invalid text)

/-- The length of time that components of the given text denote. -/
def ofFields (fields : DurationFields) (text : String) : Except DurationError Duration :=
  if !fields.isDayTime then .error (.indeterminate text)
  else if fields.negative then .error (.negative text)
  else if h : fields.totalSeconds < countLimit ∧ fields.nanos < nanosPerSecond then
    .ok ⟨fields.totalSeconds, fields.nanos, h.1, h.2⟩
  else .error (.invalid text)

/-- Reads a lexical form that denotes a length of time. -/
def parse (text : String) : Except DurationError Duration := do
  ofFields (← parseFields text) text

/-- The duration of so many seconds and nanoseconds, if both are in range. -/
def ofParts? (seconds nanos : Nat) : Option Duration :=
  if h : seconds < countLimit ∧ nanos < nanosPerSecond then some ⟨seconds, nanos, h.1, h.2⟩
  else none

/-- The duration of so many nanoseconds, for less than the count limit of them. -/
def ofNanos (n : Nat) (h : n < countLimit) : Duration :=
  ⟨n / nanosPerSecond, n % nanosPerSecond, Nat.lt_of_le_of_lt (Nat.div_le_self _ _) h,
    Nat.mod_lt _ (by decide)⟩

/-- The duration of so many milliseconds, for less than the count limit of them. -/
def ofMillis (n : Nat) (h : n < countLimit) : Duration :=
  ⟨n / 1000, n % 1000 * 1000000, Nat.lt_of_le_of_lt (Nat.div_le_self _ _) h,
    by unfold nanosPerSecond; omega⟩

/-- The length in nanoseconds. -/
def totalNanos (d : Duration) : Nat := d.seconds * nanosPerSecond + d.nanos

/-- The seconds component of a lexical form, without a fraction that is zero. -/
def secondsText (seconds nanos : Nat) : List Char :=
  if nanos = 0 then decimal seconds ++ ['S']
  else decimal seconds ++ '.' :: trimRight '0' (decimalPadded 9 nanos) ++ ['S']

/-- A component of a lexical form, left out when it is zero. -/
def componentText (n : Nat) (designator : Char) : List Char :=
  if n = 0 then [] else decimal n ++ [designator]

/-- The time part of a lexical form, left out when all of it is zero. -/
def timeText (hours minutes seconds nanos : Nat) : List Char :=
  if hours = 0 ∧ minutes = 0 ∧ seconds = 0 ∧ nanos = 0 then []
  else
    'T' :: componentText hours 'H' ++ componentText minutes 'M' ++
      (if seconds = 0 ∧ nanos = 0 then [] else secondsText seconds nanos)

/-- The canonical lexical form, such as `PT1H30M` or `P1DT0.5S`; nothing at all is `PT0S`. -/
def lexical (d : Duration) : String :=
  let days := d.seconds / 86400
  let rest := d.seconds % 86400
  if d.seconds = 0 ∧ d.nanos = 0 then "PT0S"
  else
    String.ofList ('P' :: componentText days 'D' ++
      timeText (rest / 3600) (rest % 3600 / 60) (rest % 60) d.nanos)

end Duration

/-- A unit of time in the grammar of a dialect. -/
structure TimeUnit where
  nanos : Nat
  symbol : String
  deriving DecidableEq, Repr

namespace Duration

/-- Writes a duration in the largest unit, of units in ascending order, that divides it. No time
at all is written in seconds, or in the first unit of a table without them. -/
def inUnits? (d : Duration) (units : List TimeUnit) (separator : String) : Option String :=
  let total := d.totalNanos
  if d.seconds = 0 ∧ d.nanos = 0 then
    ((units.find? (·.nanos = nanosPerSecond)).or units.head?).map fun unit =>
      "0" ++ separator ++ unit.symbol
  else
    (units.reverse.find? (total % ·.nanos = 0)).map fun unit =>
      String.ofList (decimal (total / unit.nanos)) ++ separator ++ unit.symbol

end Duration

end StreamQuery
