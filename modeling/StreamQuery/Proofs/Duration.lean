import StreamQuery.Proofs.Duration.Grammar
import StreamQuery.Proofs.Token.Lexical

/-! # Lexical forms of durations

A lexical form of a duration without a sign is a single word of query text, and the canonical form
of a duration is a lexical form with its numbers.
-/

namespace StreamQuery

open Text Lexeme

/-! ### Decimal numerals -/

namespace Text

theorem isDigit_of_mem_decimal {n : Nat} {c : Char} (h : c ∈ decimal n) : c.isDigit :=
  Nat.isDigit_of_mem_toDigits (by decide) (by decide) h

theorem digitsValue_decimal (n : Nat) : digitsValue (decimal n) = n :=
  Nat.ofDigitChars_toDigits (by decide) (by decide)

theorem numeral_decimal {n : Nat} (h : n < countLimit) : Numeral n (decimal n) :=
  ⟨Nat.toDigits_ne_nil, fun _ => isDigit_of_mem_decimal, digitsValue_decimal n, h⟩

theorem readCount?_decimal {n : Nat} (h : n < countLimit) :
    readCount? (String.ofList (decimal n)) = some n := by
  have hplus : ∀ digits, decimal n ≠ '+' :: digits := by
    intro digits hdigits
    have : '+' ∈ decimal n := by rw [hdigits]; exact List.mem_cons_self
    exact absurd (isDigit_of_mem_decimal this) (by decide)
  unfold readCount?
  rw [String.toList_ofList]
  split
  · next digits hdigits => exact absurd hdigits (hplus digits)
  · exact digitsCount?_eq_some_iff.mpr (numeral_decimal h)

theorem lt_of_readCount? {text : String} {n : Nat} (h : readCount? text = some n) :
    n < countLimit := by
  unfold readCount? at h
  split at h <;> exact (digitsCount?_eq_some_iff.mp h).lt

/-- A count is digits, perhaps behind a plus sign. -/
theorem exists_digits_of_readCount? {text : String} {n : Nat} (h : readCount? text = some n) :
    ∃ digits : List Char, (text.toList = digits ∨ text.toList = '+' :: digits) ∧ digits ≠ [] ∧
      ∀ c ∈ digits, c.isDigit := by
  unfold readCount? at h
  split at h
  · next digits heq =>
    have hnumeral := digitsCount?_eq_some_iff.mp h
    exact ⟨digits, .inr heq, hnumeral.ne_nil, hnumeral.isDigit⟩
  · have hnumeral := digitsCount?_eq_some_iff.mp h
    exact ⟨_, .inl rfl, hnumeral.ne_nil, hnumeral.isDigit⟩

end Text

namespace DurationFields

/-! ### What a lexical form is made of -/

/-- Text that can be part of a word with a fraction. -/
structure IsPiece (cs : List Char) : Prop where
  chars : ∀ c ∈ cs, isDurationPart c
  last : cs.getLast? ≠ some '.'

theorem IsPiece.nil : IsPiece [] := ⟨nofun, nofun⟩

theorem IsPiece.append {as bs : List Char} (ha : IsPiece as) (hb : IsPiece bs) :
    IsPiece (as ++ bs) where
  chars c hc := by
    rcases List.mem_append.mp hc with hc | hc
    · exact ha.chars c hc
    · exact hb.chars c hc
  last := by
    rw [List.getLast?_append]
    cases h : bs.getLast? with
    | none => simpa using ha.last
    | some c => simpa [h] using hb.last

/-- Digits and a letter behind them. -/
theorem IsPiece.concat_letter {digits : List Char} {designator : Char}
    (hdigits : ∀ c ∈ digits, isDurationPart c) (hletter : designator.isAlpha) :
    IsPiece (digits ++ [designator]) where
  chars c hc := by
    rcases List.mem_append.mp hc with hc | hc
    · exact hdigits c hc
    · obtain rfl := List.mem_singleton.mp hc
      simp [isDurationPart, Char.isAlphanum, hletter]
  last := by
    rw [List.getLast?_concat]
    intro h
    cases h
    exact absurd hletter (by decide)

theorem isDurationPart_of_isDigit {c : Char} (h : c.isDigit) : isDurationPart c := by
  simp [isDurationPart, Char.isAlphanum, h]

section

variable {designator : Char} {value : Option Nat} {cs : List Char}

theorem Component.isPiece (h : Component designator value cs) (hletter : designator.isAlpha) :
    IsPiece cs := by
  cases h with
  | absent => exact .nil
  | present numeral =>
      exact .concat_letter (fun c hc => isDurationPart_of_isDigit (numeral.isDigit c hc)) hletter

theorem SecondsComponent.isPiece {value : Option (Nat × Nat)} (h : SecondsComponent value cs) :
    IsPiece cs := by
  cases h with
  | absent => exact .nil
  | whole numeral =>
      exact .concat_letter (fun c hc => isDurationPart_of_isDigit (numeral.isDigit c hc)) (by decide)
  | @fractional n digits fraction numeral _ isDigit _ =>
      have hchars : ∀ c ∈ digits ++ '.' :: fraction, isDurationPart c := by
        refine List.forall_mem_append.mpr ⟨fun c hc => ?_, List.forall_mem_cons.mpr ⟨rfl, fun c hc => ?_⟩⟩
        · exact isDurationPart_of_isDigit (numeral.isDigit c hc)
        · exact isDurationPart_of_isDigit (isDigit c hc)
      have hpiece : IsPiece ((digits ++ '.' :: fraction) ++ ['S']) := .concat_letter hchars (by decide)
      rwa [List.append_assoc, List.cons_append] at hpiece

theorem BodyForm.isPiece {negative : Bool} {fields : DurationFields}
    (h : BodyForm negative fields cs) : IsPiece cs := by
  obtain ⟨hyears, hmonths, hdays, htime, -⟩ := h
  refine (hyears.isPiece (by decide)).append ((hmonths.isPiece (by decide)).append
    ((hdays.isPiece (by decide)).append ?_))
  cases htime with
  | absent => exact .nil
  | present hhours hminutes hseconds =>
      have hmark : IsPiece ['T'] := ⟨by decide, by decide⟩
      exact hmark.append ((hhours.isPiece (by decide)).append
        ((hminutes.isPiece (by decide)).append hseconds.isPiece))

end

theorem ofBody?_piece {negative : Bool} {cs : List Char} {fields : DurationFields}
    (h : ofBody? negative cs = some fields) : IsPiece cs :=
  (ofBody?_eq_some_iff.mp h).isPiece

end DurationFields

/-- A lexical form of a duration that begins with its designator is a word. -/
theorem Token.Lexical.duration {text : String} (hvalid : (DurationFields.ofLexical? text).isSome)
    (htrim : trim text.toList = text.toList) (hsign : text.toList.head? ≠ some '-') :
    (Token.word text).Lexical := by
  obtain ⟨fields, hfields⟩ := Option.isSome_iff_exists.mp hvalid
  have hpiece : text.toList.head? = some 'P' ∧ DurationFields.IsPiece text.toList := by
    unfold DurationFields.ofLexical? at hfields
    rw [htrim] at hfields
    split at hfields
    · next cs hcs =>
      rw [hcs] at hsign
      exact absurd rfl hsign
    · next cs hcs =>
      have hmark : DurationFields.IsPiece ['P'] := ⟨by decide, by decide⟩
      rw [hcs]
      exact ⟨rfl, hmark.append (DurationFields.ofBody?_piece hfields)⟩
    · cases hfields
  obtain ⟨hhead, hchars, hlast⟩ := hpiece
  rw [← String.ofList_toList (s := text)]
  by_cases hpoint : text.toList.contains '.'
  · exact .fractional ⟨hchars, hlast, hhead, hpoint, by rwa [String.ofList_toList]⟩
  · refine .word ⟨fun c hc => ?_, by rw [hhead]; rfl⟩
    have hc' := hchars c hc
    have hne : c ≠ '.' := by
      rintro rfl
      exact hpoint (List.contains_iff_mem.mpr hc)
    simp only [isDurationPart, beq_eq_false_iff_ne.mpr hne, Bool.or_false] at hc'
    rcases Bool.or_eq_true _ _ ▸ hc' with hletter | hdigit
    · simp [Lexeme.isNameChar, isAlphanumeric, isAlphabetic, isWordLetter, hletter]
    · simp [Lexeme.isNameChar, isAlphanumeric, isDecimalDigit, isWordDigit, hdigit]

/-! ### The canonical form -/

namespace Text

theorem trimRight_append_replicate (c : Char) (cs : List Char) :
    ∃ k, trimRight c cs ++ List.replicate k c = cs := by
  have hall : ∀ d ∈ cs.reverse.takeWhile (· == c), d = c := fun d hd => by
    simpa using mem_takeWhile d hd
  refine ⟨(cs.reverse.takeWhile (· == c)).length, ?_⟩
  rw [trimRight, ← List.reverse_replicate, ← List.eq_replicate_of_mem hall, ← List.reverse_append,
    List.takeWhile_append_dropWhile, List.reverse_reverse]

theorem digitsValue_decimalPadded (width n : Nat) : digitsValue (decimalPadded width n) = n := by
  have hzeros : digitsValue (List.replicate (width - (decimal n).length) '0') = 0 :=
    Nat.ofDigitChars_replicate_zero.trans (Nat.mul_zero _)
  calc digitsValue (decimalPadded width n)
      = Nat.ofDigitChars 10 (decimal n)
          (digitsValue (List.replicate (width - (decimal n).length) '0')) := Nat.ofDigitChars_append 0
    _ = n := by rw [hzeros]; exact digitsValue_decimal n

theorem isDigit_of_mem_decimalPadded {width n : Nat} {c : Char} (h : c ∈ decimalPadded width n) :
    c.isDigit := by
  rcases List.mem_append.mp h with hc | hc
  · rw [List.eq_of_mem_replicate hc]
    decide
  · exact isDigit_of_mem_decimal hc

theorem length_decimalPadded {width n : Nat} (h : (decimal n).length ≤ width) :
    (decimalPadded width n).length = width := by
  rw [decimalPadded, List.length_append, List.length_replicate, Nat.sub_add_cancel h]

end Text

namespace DurationFields

/-- A number that is written unless it is zero. -/
def unlessZero (n : Nat) : Option Nat := if n = 0 then none else some n

theorem getD_unlessZero (n : Nat) : (unlessZero n).getD 0 = n := by
  unfold unlessZero
  split
  · next h => exact h.symm
  · rfl

theorem isSome_unlessZero {n : Nat} : (unlessZero n).isSome ↔ n ≠ 0 := by
  simp [unlessZero]

theorem component_componentText {n : Nat} (h : n < countLimit) (designator : Char) :
    Component designator (unlessZero n) (Duration.componentText n designator) := by
  unfold unlessZero Duration.componentText
  split
  · exact .absent
  · exact .present (numeral_decimal h)

theorem secondsComponent_secondsText {seconds nanos : Nat} (hseconds : seconds < countLimit)
    (hnanos : nanos < nanosPerSecond) :
    SecondsComponent (some (seconds, nanos)) (Duration.secondsText seconds nanos) := by
  unfold Duration.secondsText
  split
  · next hzero =>
    rw [hzero]
    exact .whole (numeral_decimal hseconds)
  · next hpos =>
    -- the zeros that are trimmed away are those that the fraction is filled with again
    obtain ⟨k, htrim⟩ := trimRight_append_replicate '0' (decimalPadded 9 nanos)
    have hdecimal : (decimal nanos).length ≤ 9 :=
      (Nat.length_toDigits_le_iff (by decide) (by decide)).mpr hnanos
    have hlength := congrArg List.length htrim
    rw [List.length_append, List.length_replicate, length_decimalPadded hdecimal] at hlength
    have hvalue := digitsValue_append_zeros (trimRight '0' (decimalPadded 9 nanos)) k
    rw [htrim, digitsValue_decimalPadded] at hvalue
    obtain rfl : k = 9 - (trimRight '0' (decimalPadded 9 nanos)).length := by omega
    rw [List.append_assoc, List.cons_append]
    nth_rewrite 1 [hvalue]
    refine .fractional (numeral_decimal hseconds) (fun hnil => hpos ?_) (fun c hc => ?_) (by omega)
    · rw [hvalue, hnil]
      exact Nat.zero_mul _
    · exact isDigit_of_mem_decimalPadded ((trimRight_isPrefix '0' _).subset hc)

theorem exists_timePart_timeText {hours minutes seconds nanos : Nat} (hhours : hours < countLimit)
    (hminutes : minutes < countLimit) (hseconds : seconds < countLimit)
    (hnanos : nanos < nanosPerSecond) : ∃ h m s,
      TimePart h m s (Duration.timeText hours minutes seconds nanos) ∧ h.getD 0 = hours ∧
      m.getD 0 = minutes ∧ s.getD (0, 0) = (seconds, nanos) := by
  unfold Duration.timeText
  split
  · next hzero =>
    obtain ⟨rfl, rfl, rfl, rfl⟩ := hzero
    exact ⟨none, none, none, .absent, rfl, rfl, rfl⟩
  · next hne =>
    rw [List.cons_append, List.cons_append, List.append_assoc]
    by_cases hzero : seconds = 0 ∧ nanos = 0
    · refine ⟨_, _, none, .present (component_componentText hhours 'H')
        (component_componentText hminutes 'M') (if_pos hzero ▸ .absent) ?_, getD_unlessZero hours,
        getD_unlessZero minutes, ?_⟩
      · rw [isSome_unlessZero, isSome_unlessZero]
        by_contra hnone
        exact hne ⟨by omega, by omega, hzero⟩
      · rw [hzero.1, hzero.2]
        rfl
    · rw [if_neg hzero]
      exact ⟨_, _, _, .present (component_componentText hhours 'H')
        (component_componentText hminutes 'M') (secondsComponent_secondsText hseconds hnanos)
        (.inr (.inr rfl)), getD_unlessZero hours, getD_unlessZero minutes, rfl⟩

/-- What is written of a duration that is not zero has its components as they are. -/
theorem bodyForm_componentText (negative : Bool) {days hours minutes seconds nanos : Nat}
    (hdays : days < countLimit) (hhours : hours < countLimit) (hminutes : minutes < countLimit)
    (hseconds : seconds < countLimit) (hnanos : nanos < nanosPerSecond)
    (hne : ¬ (days = 0 ∧ hours = 0 ∧ minutes = 0 ∧ seconds = 0 ∧ nanos = 0)) :
    BodyForm negative ⟨negative, 0, 0, days, hours, minutes, seconds, nanos⟩
      (Duration.componentText days 'D' ++ Duration.timeText hours minutes seconds nanos) := by
  obtain ⟨h, m, s, htime, hh, hm, hs⟩ := exists_timePart_timeText hhours hminutes hseconds hnanos
  have hsome : (unlessZero days).isSome ∨
      Duration.timeText hours minutes seconds nanos ≠ [] := by
    by_cases hzero : days = 0
    · refine .inr ?_
      rw [Duration.timeText, if_neg fun htime => hne ⟨hzero, htime⟩]
      exact List.cons_ne_nil _ _
    · exact .inl (isSome_unlessZero.mpr hzero)
  have hform : BodyForm negative _ _ :=
    .mk .absent .absent (component_componentText hdays 'D') htime (.inr (.inr hsome))
  rw [hs, hh, hm, getD_unlessZero] at hform
  exact hform

end DurationFields

theorem trim_eq_self {cs : List Char} (h : ∀ c ∈ cs, isBlank c = false) : trim cs = cs := by
  have hdrop : ∀ as : List Char, (∀ c ∈ as, isBlank c = false) → as.dropWhile isBlank = as := by
    intro as has
    cases as with
    | nil => rfl
    | cons c as =>
        rw [List.dropWhile_cons_of_neg]
        rw [has c List.mem_cons_self]
        exact Bool.false_ne_true
  rw [trim, hdrop cs h, hdrop _ fun c hc => h c (List.mem_reverse.mp hc), List.reverse_reverse]

namespace Duration

theorem lexical_eq (d : Duration) : d.lexical.toList =
    'P' :: if d.seconds = 0 ∧ d.nanos = 0 then ['T', '0', 'S']
      else componentText (d.seconds / 86400) 'D' ++
        timeText (d.seconds % 86400 / 3600) (d.seconds % 86400 % 3600 / 60)
          (d.seconds % 86400 % 60) d.nanos := by
  unfold lexical
  dsimp only
  split
  · rfl
  · rw [String.toList_ofList]
    rfl

theorem isBlank_of_isDurationPart {c : Char} (h : isDurationPart c) : isBlank c = false := by
  rw [isDurationPart, Bool.or_eq_true, beq_iff_eq] at h
  rcases h with h | rfl
  · rw [isAlphanum_iff_toNat] at h
    simp only [isBlank, Bool.or_eq_false_iff, Bool.and_eq_false_iff, decide_eq_false_iff_not,
      beq_eq_false_iff_ne]
    omega
  · rfl

/-- What is written of a duration is the mark of a period with the components in their ranges. -/
theorem exists_body_lexical (d : Duration) : ∃ body, d.lexical.toList = 'P' :: body ∧
    DurationFields.BodyForm false ⟨false, 0, 0, d.seconds / 86400, d.seconds % 86400 / 3600,
      d.seconds % 86400 % 3600 / 60, d.seconds % 86400 % 60, d.nanos⟩ body := by
  refine ⟨_, d.lexical_eq, ?_⟩
  split
  · next hzero =>
    rw [hzero.1, hzero.2]
    exact DurationFields.ofBody?_eq_some_iff.mp (by decide)
  · next hne =>
    have hlt := d.seconds_lt
    refine DurationFields.bodyForm_componentText false ?_ ?_ ?_ ?_ d.nanos_lt ?_
    all_goals unfold countLimit at *
    all_goals omega

theorem trim_lexical (d : Duration) : trim d.lexical.toList = d.lexical.toList := by
  obtain ⟨body, hlexical, hform⟩ := d.exists_body_lexical
  refine trim_eq_self fun c hc => isBlank_of_isDurationPart ?_
  rw [hlexical] at hc
  exact List.forall_mem_cons.mpr ⟨by decide, hform.isPiece.chars⟩ c hc

theorem ofLexical?_of_body {text : String} {body : List Char}
    (h : trim text.toList = 'P' :: body) :
    DurationFields.ofLexical? text = DurationFields.ofBody? false body := by
  rw [DurationFields.ofLexical?, h]
  rfl

/-- The canonical form of a duration is a lexical form without a sign and without blanks. -/
theorem lexical_valid (d : Duration) : (DurationFields.ofLexical? d.lexical).isSome ∧
    trim d.lexical.toList = d.lexical.toList ∧ d.lexical.toList.head? ≠ some '-' := by
  obtain ⟨body, hlexical, hform⟩ := d.exists_body_lexical
  refine ⟨?_, d.trim_lexical, ?_⟩
  · rw [ofLexical?_of_body (d.trim_lexical.trans hlexical),
      DurationFields.ofBody?_eq_some_iff.mpr hform]
    rfl
  · rw [hlexical]
    nofun

theorem isLexical_word (d : Duration) : (Token.word d.lexical).Lexical := by
  obtain ⟨hvalid, htrim, hsign⟩ := d.lexical_valid
  exact .duration hvalid htrim hsign

end Duration

/-! ### Blanks and signs -/

/-- A text is what is left of it without the blanks at its ends, between blanks. -/
theorem exists_blanks (cs : List Char) : ∃ before after, cs = before ++ (trim cs ++ after) ∧
    (∀ c ∈ before, isBlank c) ∧ ∀ c ∈ after, isBlank c := by
  refine ⟨cs.takeWhile isBlank, ((cs.dropWhile isBlank).reverse.takeWhile isBlank).reverse, ?_,
    fun c hc => mem_takeWhile c hc, fun c hc => mem_takeWhile c (List.mem_reverse.mp hc)⟩
  rw [trim, ← List.reverse_append, List.takeWhile_append_dropWhile, List.reverse_reverse,
    List.takeWhile_append_dropWhile]

namespace DurationFields

/-- The sign does not count for what can stand behind it. -/
theorem ofBody?_isSome_eq (negative : Bool) (cs : List Char) :
    (ofBody? negative cs).isSome = (ofBody? false cs).isSome := by
  unfold ofBody?
  dsimp only
  split
  · split <;> rfl
  · split <;> rfl
  · rfl

/-- Without a digit there is no component. -/
theorem exists_isDigit_of_ofBody? {negative : Bool} {cs : List Char} {fields : DurationFields}
    (h : ofBody? negative cs = some fields) : ∃ c ∈ cs, c.isDigit := by
  by_contra hnone
  have hstops : ∀ {piece : List Char}, piece <:+ cs → Stops Char.isDigit piece := by
    intro piece hpiece c hc
    by_contra hdigit
    exact hnone ⟨c, hpiece.subset (List.mem_of_mem_head? hc), by simpa using hdigit⟩
  have hcomponent : ∀ {piece : List Char} (designator : Char), piece <:+ cs →
      readComponent designator piece = (none, piece) :=
    fun designator hpiece => readComponent_of_stops designator (hstops hpiece)
  unfold ofBody? at h
  simp only [hcomponent _ List.suffix_rfl] at h
  split at h
  · cases h
  · next tail =>
    have htail : tail <:+ 'T' :: tail := List.suffix_cons 'T' tail
    have hseconds : readSeconds tail = (none, tail) := by
      rw [readSeconds, leadingCount?, takeWhile_of_stops (hstops htail)]
      rfl
    simp [readTime?, hcomponent _ htail, hseconds] at h
  · cases h

/-- A lexical form of a duration has a designator and a digit. -/
theorem mem_of_ofLexical? {text : String} (h : (ofLexical? text).isSome) :
    'P' ∈ text.toList ∧ ∃ c ∈ text.toList, c.isDigit := by
  obtain ⟨fields, hfields⟩ := Option.isSome_iff_exists.mp h
  obtain ⟨before, after, htext, -⟩ := exists_blanks text.toList
  have htrim : ∀ c ∈ trim text.toList, c ∈ text.toList := fun c hc => by
    rw [htext]
    exact List.mem_append_right _ (List.mem_append_left _ hc)
  unfold ofLexical? at hfields
  split at hfields
  · next body heq =>
    obtain ⟨c, hc, hdigit⟩ := exists_isDigit_of_ofBody? hfields
    exact ⟨htrim _ (heq ▸ by simp), c, htrim _ (heq ▸ by simp [hc]), hdigit⟩
  · next body heq =>
    obtain ⟨c, hc, hdigit⟩ := exists_isDigit_of_ofBody? hfields
    exact ⟨htrim _ (heq ▸ by simp), c, htrim _ (heq ▸ by simp [hc]), hdigit⟩
  · cases hfields

/-- A count is no duration. -/
theorem ofLexical?_of_readCount? {text : String} {n : Nat} (h : readCount? text = some n) :
    ofLexical? text = none := by
  by_contra hsome
  obtain ⟨hmark, -⟩ := mem_of_ofLexical? (Option.isSome_iff_ne_none.mpr hsome)
  obtain ⟨digits, htext, -, hall⟩ := exists_digits_of_readCount? h
  have hdigit : 'P' ∉ digits := fun hmem => absurd (hall 'P' hmem) (by decide)
  rcases htext with htext | htext <;> simp [htext, hdigit] at hmark

/-- A lexical form is a word between blanks, and a minus sign may stand in front of the word. -/
theorem exists_word {text : String} (h : (ofLexical? text).isSome) :
    ∃ before sign word after, text.toList = before ++ (sign ++ (word ++ after)) ∧
      (∀ c ∈ before, isBlank c) ∧ (∀ c ∈ after, isBlank c) ∧ (sign = [] ∨ sign = ['-']) ∧
      word.head? = some 'P' ∧ (Token.word (String.ofList word)).Lexical := by
  obtain ⟨before, after, htext, hbefore, hafter⟩ := exists_blanks text.toList
  have hword : ∀ {body : List Char}, (ofBody? false body).isSome →
      (Token.word (String.ofList ('P' :: body))).Lexical := by
    intro body hbody
    obtain ⟨fields, hfields⟩ := Option.isSome_iff_exists.mp hbody
    have hpart : ∀ c ∈ 'P' :: body, isDurationPart c :=
      List.forall_mem_cons.mpr ⟨by decide, (ofBody?_piece hfields).chars⟩
    have htrim : trim (String.ofList ('P' :: body)).toList = 'P' :: body := by
      rw [String.toList_ofList]
      exact trim_eq_self fun c hc => Duration.isBlank_of_isDurationPart (hpart c hc)
    refine .duration ?_ (by rw [htrim, String.toList_ofList]) (by rw [String.toList_ofList]; nofun)
    rwa [Duration.ofLexical?_of_body htrim]
  unfold ofLexical? at h
  split at h
  · next body htrim =>
    rw [htrim] at htext
    rw [ofBody?_isSome_eq] at h
    exact ⟨before, ['-'], 'P' :: body, after, htext, hbefore, hafter, .inr rfl, rfl, hword h⟩
  · next body htrim =>
    rw [htrim] at htext
    exact ⟨before, [], 'P' :: body, after, htext, hbefore, hafter, .inl rfl, rfl, hword h⟩
  · cases h

end DurationFields

end StreamQuery
