import StreamQuery.Proofs.Except
import StreamQuery.Proofs.Token.Lexeme
import Mathlib.Data.List.Induction

/-! # The grammar of durations

The lexical forms of a duration as a grammar, and reading against it: what is read stands in the text
as the grammar has it, and each form of the grammar is read with the numbers that stand in it.
-/

namespace StreamQuery

open Text Lexeme

/-! ### Numerals -/

/-- A number in decimal: at least one ASCII digit, and a value below the limit of counts. -/
structure Numeral (n : Nat) (digits : List Char) : Prop where
  ne_nil : digits ≠ []
  isDigit : ∀ c ∈ digits, c.isDigit
  value : digitsValue digits = n
  lt : n < countLimit

namespace Text

variable {digits : List Char} {n : Nat}

theorem digitsCount?_eq_some_iff : digitsCount? digits = some n ↔ Numeral n digits := by
  unfold digitsCount?
  rw [Option.ite_none_right_eq_some, List.all_eq_true]
  dsimp only
  rw [Option.ite_none_right_eq_some, Option.some_inj]
  constructor
  · rintro ⟨⟨hne, hdigit⟩, hlt, rfl⟩
    exact ⟨hne, hdigit, rfl, hlt⟩
  · rintro ⟨hne, hdigit, rfl, hlt⟩
    exact ⟨⟨hne, hdigit⟩, hlt, rfl⟩

/-- Zeros behind the digits shift their value. -/
theorem digitsValue_append_zeros (digits : List Char) (k : Nat) :
    digitsValue (digits ++ List.replicate k '0') = digitsValue digits * Nat.pow 10 k := by
  have happend : digitsValue (digits ++ List.replicate k '0') =
      Nat.ofDigitChars 10 (List.replicate k '0') (digitsValue digits) := Nat.ofDigitChars_append 0
  rw [happend, Nat.ofDigitChars_replicate_zero]
  exact Nat.mul_comm _ _

theorem digitsValue_concat (digits : List Char) (c : Char) :
    digitsValue (digits ++ [c]) = 10 * digitsValue digits + (c.toNat - '0'.toNat) :=
  List.foldl_append

theorem digitsValue_lt (h : ∀ c ∈ digits, c.isDigit) :
    digitsValue digits < Nat.pow 10 digits.length := by
  induction digits using List.reverseRecOn with
  | nil => exact Nat.one_pos
  | append_singleton digits c ih =>
      obtain ⟨hdigits, hc⟩ := List.forall_mem_append.mp h
      have hcode : 48 ≤ c.toNat ∧ c.toNat ≤ 57 := Char.isDigit_iff_toNat.mp (hc c List.mem_cons_self)
      have hzero : '0'.toNat = 48 := rfl
      have hvalue := ih hdigits
      have hpow : Nat.pow 10 (digits.length + 1) = Nat.pow 10 digits.length * 10 := rfl
      rw [digitsValue_concat, List.length_append, List.length_singleton, hpow]
      omega

end Text

namespace DurationFields

variable {cs piece rest : List Char} {designator other : Char} {n : Nat} {digits : List Char}

/-! ### Forms -/

/-- A component that may be left out: a numeral and its designator. -/
inductive Component (designator : Char) : Option Nat → List Char → Prop where
  | absent : Component designator none []
  | present {n : Nat} {digits : List Char} (numeral : Numeral n digits) :
    Component designator (some n) (digits ++ [designator])

/-- The seconds, which may be left out. Behind a point they have one to nine digits, a fraction in
nanoseconds if it is filled with zeros. -/
inductive SecondsComponent : Option (Nat × Nat) → List Char → Prop where
  | absent : SecondsComponent none []
  | whole {n : Nat} {digits : List Char} (numeral : Numeral n digits) :
    SecondsComponent (some (n, 0)) (digits ++ ['S'])
  | fractional {n : Nat} {digits fraction : List Char} (numeral : Numeral n digits)
    (ne_nil : fraction ≠ []) (isDigit : ∀ c ∈ fraction, c.isDigit) (length_le : fraction.length ≤ 9) :
    SecondsComponent (some (n, digitsValue fraction * Nat.pow 10 (9 - fraction.length)))
      (digits ++ '.' :: (fraction ++ ['S']))

/-- The time of day, which may be left out: its mark, and at least one component behind it. -/
inductive TimePart : Option Nat → Option Nat → Option (Nat × Nat) → List Char → Prop where
  | absent : TimePart none none none []
  | present {hours minutes : Option Nat} {seconds : Option (Nat × Nat)} {hoursText minutesText
      secondsText : List Char} (hours_form : Component 'H' hours hoursText)
    (minutes_form : Component 'M' minutes minutesText)
    (seconds_form : SecondsComponent seconds secondsText)
    (some_component : hours.isSome ∨ minutes.isSome ∨ seconds.isSome) :
    TimePart hours minutes seconds ('T' :: (hoursText ++ (minutesText ++ secondsText)))

/-- What stands behind the mark of a period: at least one component, with the numbers of all of them.
What is left out counts as zero. -/
inductive BodyForm (negative : Bool) : DurationFields → List Char → Prop where
  | mk {years months days hours minutes : Option Nat} {seconds : Option (Nat × Nat)}
      {yearsText monthsText daysText timeText : List Char} (years_form : Component 'Y' years yearsText)
    (months_form : Component 'M' months monthsText) (days_form : Component 'D' days daysText)
    (time_form : TimePart hours minutes seconds timeText)
    (some_component : years.isSome ∨ months.isSome ∨ days.isSome ∨ timeText ≠ []) :
    BodyForm negative ⟨negative, years.getD 0, months.getD 0, days.getD 0, hours.getD 0,
        minutes.getD 0, (seconds.getD (0, 0)).1, (seconds.getD (0, 0)).2⟩
      (yearsText ++ (monthsText ++ (daysText ++ timeText)))

/-- The lexical forms of durations with the numbers that stand in them: the mark of a period, behind a
minus sign or without one, and its components. -/
inductive LexicalForm : DurationFields → List Char → Prop where
  | positive {fields : DurationFields} {body : List Char} (body_form : BodyForm false fields body) :
    LexicalForm fields ('P' :: body)
  | negative {fields : DurationFields} {body : List Char} (body_form : BodyForm true fields body) :
    LexicalForm fields ('-' :: 'P' :: body)

/-! ### What is read stands in the text -/

theorem leadingCount?_eq_some_iff : leadingCount? cs = some (n, rest) ↔
    Numeral n (cs.takeWhile Char.isDigit) ∧ cs.dropWhile Char.isDigit = rest := by
  unfold leadingCount?
  rw [Option.map_eq_some_iff]
  constructor
  · rintro ⟨m, hcount, heq⟩
    cases heq
    exact ⟨digitsCount?_eq_some_iff.mp hcount, rfl⟩
  · rintro ⟨hnumeral, rfl⟩
    exact ⟨n, digitsCount?_eq_some_iff.mpr hnumeral, rfl⟩

theorem exists_numeral (h : leadingCount? cs = some (n, rest)) :
    ∃ digits, cs = digits ++ rest ∧ Numeral n digits := by
  obtain ⟨hnumeral, rfl⟩ := leadingCount?_eq_some_iff.mp h
  exact ⟨_, List.takeWhile_append_dropWhile.symm, hnumeral⟩

theorem exists_component {value : Option Nat} (h : readComponent designator cs = (value, rest)) :
    ∃ piece, cs = piece ++ rest ∧ Component designator value piece := by
  unfold readComponent at h
  split at h
  · next n c tail hcount =>
    obtain ⟨digits, rfl, hnumeral⟩ := exists_numeral hcount
    split at h
    · next hc =>
      cases h
      subst hc
      exact ⟨digits ++ [c], List.append_cons _ _ _, .present hnumeral⟩
    · cases h
      exact ⟨[], rfl, .absent⟩
  · cases h
    exact ⟨[], rfl, .absent⟩

theorem fractionNanos?_eq_some_iff : fractionNanos? digits = some n ↔
    digits ≠ [] ∧ digits.length ≤ 9 ∧ digitsValue digits * Nat.pow 10 (9 - digits.length) = n := by
  rw [fractionNanos?, Option.ite_none_right_eq_some, Option.some_inj, digitsValue_append_zeros,
    and_assoc]

theorem exists_secondsComponent {value : Option (Nat × Nat)} (h : readSeconds cs = (value, rest)) :
    ∃ piece, cs = piece ++ rest ∧ SecondsComponent value piece := by
  unfold readSeconds at h
  split at h
  · next n tail hcount =>
    obtain ⟨digits, rfl, hnumeral⟩ := exists_numeral hcount
    cases h
    exact ⟨digits ++ ['S'], List.append_cons _ _ _, .whole hnumeral⟩
  · next n tail hcount =>
    obtain ⟨digits, rfl, hnumeral⟩ := exists_numeral hcount
    split at h
    · next nanos behind hnanos hbehind =>
      cases h
      obtain ⟨hne, hlength, rfl⟩ := fractionNanos?_eq_some_iff.mp hnanos
      have htail := List.takeWhile_append_dropWhile (p := Char.isDigit) (l := tail)
      rw [hbehind] at htail
      refine ⟨digits ++ '.' :: (tail.takeWhile Char.isDigit ++ ['S']), ?_,
        .fractional hnumeral hne mem_takeWhile hlength⟩
      simp [htail]
    · cases h
      exact ⟨[], rfl, .absent⟩
  · cases h
    exact ⟨[], rfl, .absent⟩

theorem exists_timePart {hours minutes : Option Nat} {seconds : Option (Nat × Nat)}
    (h : readTime? cs = some ((hours, minutes, seconds), rest)) :
    ∃ piece, cs = piece ++ rest ∧ TimePart hours minutes seconds ('T' :: piece) := by
  unfold readTime? at h
  cases hread₁ : readComponent 'H' cs with
  | mk hours' cs₁ =>
  cases hread₂ : readComponent 'M' cs₁ with
  | mk minutes' cs₂ =>
  cases hread₃ : readSeconds cs₂ with
  | mk seconds' cs₃ =>
  simp only [hread₁, hread₂, hread₃] at h
  obtain ⟨hsome, heq⟩ := Option.ite_none_right_eq_some.mp h
  cases heq
  obtain ⟨hoursText, rfl, hhours⟩ := exists_component hread₁
  obtain ⟨minutesText, rfl, hminutes⟩ := exists_component hread₂
  obtain ⟨secondsText, rfl, hseconds⟩ := exists_secondsComponent hread₃
  refine ⟨hoursText ++ (minutesText ++ secondsText), ?_, .present hhours hminutes hseconds ?_⟩
  · rw [List.append_assoc, List.append_assoc]
  · simpa only [Bool.or_eq_true, or_assoc] using hsome

theorem bodyForm_of_ofBody? {negative : Bool} {fields : DurationFields}
    (h : ofBody? negative cs = some fields) : BodyForm negative fields cs := by
  unfold ofBody? at h
  cases hread₁ : readComponent 'Y' cs with
  | mk years cs₁ =>
  cases hread₂ : readComponent 'M' cs₁ with
  | mk months cs₂ =>
  cases hread₃ : readComponent 'D' cs₂ with
  | mk days cs₃ =>
  simp only [hread₁, hread₂, hread₃] at h
  obtain ⟨yearsText, rfl, hyears⟩ := exists_component hread₁
  obtain ⟨monthsText, rfl, hmonths⟩ := exists_component hread₂
  obtain ⟨daysText, rfl, hdays⟩ := exists_component hread₃
  -- behind the days there is nothing, or the time of day
  split at h
  · obtain ⟨hsome, heq⟩ := Option.ite_none_right_eq_some.mp h
    cases heq
    refine .mk hyears hmonths hdays .absent ?_
    simpa [or_assoc] using hsome
  · next tail =>
    split at h
    · next hours minutes seconds htime =>
      obtain ⟨piece, rfl, hform⟩ := exists_timePart htime
      cases h
      rw [List.append_nil]
      exact .mk hyears hmonths hdays hform (.inr (.inr (.inr (List.cons_ne_nil _ _))))
    · cases h
  · cases h

/-! ### Each form is read -/

theorem takeWhile_digits (h : ∀ c ∈ digits, c.isDigit) (hrest : Stops Char.isDigit rest) :
    (digits ++ rest).takeWhile Char.isDigit = digits := by
  rw [takeWhile_append_of_stops hrest, List.takeWhile_eq_self_iff.mpr h]

theorem dropWhile_digits (h : ∀ c ∈ digits, c.isDigit) (hrest : Stops Char.isDigit rest) :
    (digits ++ rest).dropWhile Char.isDigit = rest := by
  rw [← drop_count, count_append_self h hrest, List.drop_left]

theorem leadingCount?_numeral (h : Numeral n digits) (hrest : Stops Char.isDigit rest) :
    leadingCount? (digits ++ rest) = some (n, rest) := by
  rw [leadingCount?_eq_some_iff, takeWhile_digits h.isDigit hrest, dropWhile_digits h.isDigit hrest]
  exact ⟨h, rfl⟩

theorem readComponent_of_stops (designator : Char) (h : Stops Char.isDigit cs) :
    readComponent designator cs = (none, cs) := by
  have hcount : leadingCount? cs = none := by
    rw [leadingCount?, takeWhile_of_stops h]
    rfl
  rw [readComponent, hcount]

/-- Digits in front of another designator are read by no one, whether they are a numeral or not. -/
theorem readComponent_of_ne (h : ∀ c ∈ digits, c.isDigit) (hother : other.isDigit = false)
    (hne : other ≠ designator) :
    readComponent designator (digits ++ other :: rest) = (none, digits ++ other :: rest) := by
  unfold readComponent
  split
  · next n c tail hcount =>
    obtain ⟨-, hdrop⟩ := leadingCount?_eq_some_iff.mp hcount
    rw [dropWhile_digits h (stops_of_head? rfl hother)] at hdrop
    cases hdrop
    exact if_neg hne
  · rfl

theorem readComponent_component {value : Option Nat} (h : Component designator value piece)
    (hdesignator : designator.isDigit = false)
    (hrest : readComponent designator rest = (none, rest)) :
    readComponent designator (piece ++ rest) = (value, rest) := by
  cases h with
  | absent => exact hrest
  | present numeral =>
      rw [List.append_assoc, List.singleton_append, readComponent,
        leadingCount?_numeral numeral (stops_of_head? rfl hdesignator)]
      exact if_pos rfl

theorem readComponent_component_of_ne {value : Option Nat} (h : Component other value piece)
    (hother : other.isDigit = false) (hne : other ≠ designator)
    (hrest : readComponent designator rest = (none, rest)) :
    readComponent designator (piece ++ rest) = (none, piece ++ rest) := by
  cases h with
  | absent => exact hrest
  | present numeral =>
      rw [List.append_assoc, List.singleton_append]
      exact readComponent_of_ne numeral.isDigit hother hne

theorem readComponent_seconds {value : Option (Nat × Nat)} (h : SecondsComponent value piece)
    (hmark : 'S' ≠ designator) (hpoint : '.' ≠ designator) :
    readComponent designator piece = (none, piece) := by
  cases h with
  | absent => exact readComponent_of_stops _ (stops_nil _)
  | whole numeral => exact readComponent_of_ne numeral.isDigit (by decide) hmark
  | fractional numeral => exact readComponent_of_ne numeral.isDigit (by decide) hpoint

theorem readSeconds_seconds {value : Option (Nat × Nat)} (h : SecondsComponent value piece) :
    readSeconds piece = (value, []) := by
  cases h with
  | absent => rfl
  | whole numeral =>
      rw [readSeconds, leadingCount?_numeral numeral (stops_of_head? rfl (by decide))]
      rfl
  | @fractional n digits fraction numeral ne_nil isDigit length_le =>
      have hstops : Stops Char.isDigit ['S'] := stops_of_head? rfl (by decide)
      rw [readSeconds, leadingCount?_numeral numeral (stops_of_head? rfl (by decide))]
      simp only
      rw [takeWhile_digits isDigit hstops, dropWhile_digits isDigit hstops,
        fractionNanos?_eq_some_iff.mpr ⟨ne_nil, length_le, rfl⟩]
      rfl

section

variable {hours minutes : Option Nat} {seconds : Option (Nat × Nat)} {hoursText minutesText
  secondsText timeText : List Char}

theorem readTime?_components (hhours : Component 'H' hours hoursText)
    (hminutes : Component 'M' minutes minutesText) (hseconds : SecondsComponent seconds secondsText)
    (hsome : hours.isSome ∨ minutes.isSome ∨ seconds.isSome) :
    readTime? (hoursText ++ (minutesText ++ secondsText)) = some ((hours, minutes, seconds), []) := by
  have hH : readComponent 'H' (minutesText ++ secondsText) = (none, minutesText ++ secondsText) :=
    readComponent_component_of_ne hminutes (by decide) (by decide)
      (readComponent_seconds hseconds (by decide) (by decide))
  have hM : readComponent 'M' secondsText = (none, secondsText) :=
    readComponent_seconds hseconds (by decide) (by decide)
  rw [readTime?, readComponent_component hhours (by decide) hH]
  dsimp only
  rw [readComponent_component hminutes (by decide) hM]
  dsimp only
  rw [readSeconds_seconds hseconds]
  exact if_pos (by simpa only [Bool.or_eq_true, or_assoc] using hsome)

/-- The time of day begins with its mark, so that no component in front of it takes any of it. -/
theorem readComponent_time (h : TimePart hours minutes seconds timeText) (designator : Char) :
    readComponent designator timeText = (none, timeText) := by
  cases h with
  | absent => exact readComponent_of_stops _ (stops_nil _)
  | present => exact readComponent_of_stops _ (stops_of_head? rfl (by decide))

end

theorem ofBody?_eq_some_iff {negative : Bool} {fields : DurationFields} :
    ofBody? negative cs = some fields ↔ BodyForm negative fields cs := by
  refine ⟨bodyForm_of_ofBody?, ?_⟩
  rintro ⟨hyears, hmonths, hdays, htime, hsome⟩
  have hD := readComponent_time htime 'D'
  have hM := readComponent_component_of_ne hdays (by decide) (by decide) (readComponent_time htime 'M')
  have hY := readComponent_component_of_ne hmonths (by decide) (by decide)
    (readComponent_component_of_ne hdays (by decide) (by decide) (readComponent_time htime 'Y'))
  rw [ofBody?, readComponent_component hyears (by decide) hY]
  dsimp only
  rw [readComponent_component hmonths (by decide) hM]
  dsimp only
  rw [readComponent_component hdays (by decide) hD]
  dsimp only
  cases htime with
  | absent =>
      refine if_pos ?_
      simpa [or_assoc] using hsome
  | present hhours hminutes hseconds hcomponent =>
      simp only
      rw [readTime?_components hhours hminutes hseconds hcomponent]

theorem ofLexical?_eq_some_iff {text : String} {fields : DurationFields} :
    ofLexical? text = some fields ↔ LexicalForm fields (trim text.toList) := by
  unfold ofLexical?
  constructor
  · intro h
    split at h
    · next body htrim =>
      rw [htrim]
      exact .negative (ofBody?_eq_some_iff.mp h)
    · next body htrim =>
      rw [htrim]
      exact .positive (ofBody?_eq_some_iff.mp h)
    · cases h
  · intro h
    generalize trim text.toList = cs at h
    cases h with
    | positive body_form => exact ofBody?_eq_some_iff.mpr body_form
    | negative body_form => exact ofBody?_eq_some_iff.mpr body_form

/-- The fraction of a second is less than a second. -/
theorem BodyForm.nanos_lt {negative : Bool} {fields : DurationFields}
    (h : BodyForm negative fields cs) : fields.nanos < nanosPerSecond := by
  have hseconds : ∀ {seconds : Option (Nat × Nat)} {text : List Char},
      SecondsComponent seconds text → (seconds.getD (0, 0)).2 < nanosPerSecond := by
    intro seconds text hform
    cases hform with
    | absent => exact Nat.zero_lt_succ _
    | whole => exact Nat.zero_lt_succ _
    | @fractional n digits fraction _ _ isDigit length_le =>
        have hpow : Nat.pow 10 fraction.length * Nat.pow 10 (9 - fraction.length) = nanosPerSecond := by
          refine (Nat.pow_add 10 _ _).symm.trans ?_
          rw [Nat.add_sub_cancel' length_le]
          rfl
        rw [← hpow]
        exact Nat.mul_lt_mul_of_pos_right (digitsValue_lt isDigit) (Nat.pow_pos (by decide))
  obtain ⟨-, -, -, htime, -⟩ := h
  cases htime with
  | absent => exact Nat.zero_lt_succ _
  | present _ _ hform => exact hseconds hform

theorem LexicalForm.nanos_lt {fields : DurationFields} (h : LexicalForm fields cs) :
    fields.nanos < nanosPerSecond := by
  cases h with
  | positive body_form => exact body_form.nanos_lt
  | negative body_form => exact body_form.nanos_lt

end DurationFields

/-! ### Which texts are durations -/

namespace Duration

variable {text : String} {fields : DurationFields} {d : Duration}

theorem parseFields_eq_ok_iff : parseFields text = .ok fields ↔
    DurationFields.LexicalForm fields (trim text.toList) := by
  rw [← DurationFields.ofLexical?_eq_some_iff, parseFields]
  cases DurationFields.ofLexical? text <;> simp

/-- Only day-time components without a sign are a length of time, and only if their sum is in range. -/
theorem ofFields_eq_ok_iff : ofFields fields text = .ok d ↔ fields.years = 0 ∧ fields.months = 0 ∧
    fields.negative = false ∧ d.seconds = fields.totalSeconds ∧ d.nanos = fields.nanos := by
  unfold ofFields
  split
  · next hdayTime =>
    refine iff_of_false nofun ?_
    rintro ⟨hyears, hmonths, -⟩
    simp [DurationFields.isDayTime, hyears, hmonths] at hdayTime
  · next hdayTime =>
    obtain ⟨hyears, hmonths⟩ : fields.years = 0 ∧ fields.months = 0 := by
      simpa [DurationFields.isDayTime] using hdayTime
    split
    · next hnegative =>
      exact iff_of_false nofun fun ⟨_, _, hpositive, _⟩ => by simp [hpositive] at hnegative
    · next hnegative =>
      have hpositive := Bool.eq_false_iff.mpr hnegative
      split
      · constructor
        · intro h
          cases h
          exact ⟨hyears, hmonths, hpositive, rfl, rfl⟩
        · rintro ⟨-, -, -, hseconds, hnanos⟩
          cases d
          cases hseconds
          cases hnanos
          rfl
      · next hrange =>
        exact iff_of_false nofun fun ⟨_, _, _, hseconds, hnanos⟩ =>
          hrange ⟨hseconds ▸ d.seconds_lt, hnanos ▸ d.nanos_lt⟩

/-- Reading accepts exactly the lexical forms, between blanks, and answers the numbers that stand in
them; a length of time is read just if no year, month or sign is in the way and the seconds are in
range, and it is what the components sum up to. -/
theorem parse_lexicalForm (text : String) :
    (∀ fields, parseFields text = .ok fields ↔
      DurationFields.LexicalForm fields (trim text.toList)) ∧
    ∀ seconds nanos, (∃ d, parse text = .ok d ∧ d.seconds = seconds ∧ d.nanos = nanos) ↔
      ∃ fields, DurationFields.LexicalForm fields (trim text.toList) ∧ fields.years = 0 ∧
        fields.months = 0 ∧ fields.negative = false ∧ seconds < countLimit ∧
        seconds = 86400 * fields.days + 3600 * fields.hours + 60 * fields.minutes + fields.seconds ∧
        nanos = fields.nanos := by
  refine ⟨fun fields => parseFields_eq_ok_iff, fun seconds nanos => ⟨?_, ?_⟩⟩
  · rintro ⟨d, hparse, rfl, rfl⟩
    obtain ⟨fields, hfields, hd⟩ := bind_eq_ok_iff.mp hparse
    obtain ⟨hyears, hmonths, hpositive, hseconds, hnanos⟩ := ofFields_eq_ok_iff.mp hd
    exact ⟨fields, parseFields_eq_ok_iff.mp hfields, hyears, hmonths, hpositive, d.seconds_lt,
      hseconds, hnanos⟩
  · rintro ⟨fields, hform, hyears, hmonths, hpositive, hlt, hseconds, rfl⟩
    have hd : ofFields fields text = .ok ⟨seconds, fields.nanos, hlt, hform.nanos_lt⟩ :=
      ofFields_eq_ok_iff.mpr ⟨hyears, hmonths, hpositive, hseconds, rfl⟩
    exact ⟨_, bind_eq_ok_iff.mpr ⟨fields, parseFields_eq_ok_iff.mpr hform, hd⟩, rfl, rfl⟩

/-- A fraction counts as nanoseconds, and blanks around the form do not count. -/
example : parse " P1DT0.25S " = .ok ⟨86400, 250000000, by decide, by decide⟩ := by cbv

end Duration

end StreamQuery
