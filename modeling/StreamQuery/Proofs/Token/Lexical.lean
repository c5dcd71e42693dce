import StreamQuery.Proofs.Token.Lexeme

/-! # Lexical tokens

The tokens that a text can be split into, and when one of them is read back from its own text. A
token is lexical for what its text is made of alone; whether it is found in front of another text
depends on the beginning of that text.
-/

namespace StreamQuery

open Text

namespace Lexeme

variable {allowed : Char → Bool} {cs rest : List Char} {n : Nat}

/-! ### Which kind comes first -/

/-- The characters that begin an IRI, a variable, a literal or a language tag. -/
def isOpener (c : Char) : Bool :=
  c == '<' || c == '?' || c == '$' || c == '"' || c == '\'' || c == '@'

/-- The characters that begin a number. -/
def isNumberStart (c : Char) : Bool := c.isDigit || c == '+' || c == '-'

theorem not_opener (allowed : Char → Bool) {c : Char} (h : allowed c)
    (hall : ∀ d ∈ ['<', '?', '$', '"', '\'', '@'], allowed d = false) : isOpener c = false := by
  by_contra hc
  have hmem : c ∈ ['<', '?', '$', '"', '\'', '@'] := by
    simpa only [isOpener, Bool.not_eq_false, Bool.or_eq_true, beq_iff_eq, List.mem_cons,
      List.not_mem_nil, or_false, or_assoc] using hc
  simp [hall c hmem] at h

theorem openers_eq_none (cs : List Char) (h : Stops isOpener cs) : iriLength? cs = none ∧
    variableLength? cs = none ∧ literalLength? cs = none ∧ languageLength? cs = none := by
  cases cs with
  | nil => exact ⟨rfl, rfl, rfl, rfl⟩
  | cons c cs =>
      have hc := h c rfl
      simp only [isOpener, Bool.or_eq_false_iff, beq_eq_false_iff_ne] at hc
      simp [iriLength?, variableLength?, literalLength?, openingQuote?, languageLength?, hc]

theorem numberLength?_eq_none (h : Stops isNumberStart cs) : numberLength? cs = none := by
  cases cs with
  | nil => rfl
  | cons c cs =>
      have hc := h c rfl
      simp only [isNumberStart, Bool.or_eq_false_iff, beq_eq_false_iff_ne] at hc
      have hsign : sign (c :: cs) = 0 := by simp [sign, hc]
      have hcount : count1? Char.isDigit (c :: cs) = none :=
        count1?_eq_none_iff.mpr (stops_of_head? rfl hc.1.1)
      simp [numberLength?, hsign, hcount]

theorem exists_numberStart (h : numberLength? cs = some n) :
    ∃ c, cs.head? = some c ∧ isNumberStart c := by
  cases cs with
  | nil => simp [numberLength?, count1?, count] at h
  | cons c cs =>
      refine ⟨c, rfl, ?_⟩
      by_contra hc
      rw [numberLength?_eq_none (stops_of_head? rfl (by simpa using hc))] at h
      cases h

theorem blankLength?_eq_none (h : Stops (· == '_') cs) : blankLength? cs = none := by
  rw [blankLength?_eq_none_iff]
  rintro tail rfl
  exact absurd (h '_' rfl) (by decide)

theorem IsPrefixed.blankLength?_append {label part : List Char} (h : IsPrefixed label part)
    (hblank : label = ['_'] → Stops isBlankChar part) (hrest : Stops isBlankChar rest) :
    blankLength? (label ++ ':' :: part ++ rest) = none := by
  rw [blankLength?_eq_none_iff]
  intro tail htail
  rw [List.append_assoc] at htail
  have hlabel : label = ['_'] := by
    have htake := congrArg (List.takeWhile isLabelChar) htail
    rw [List.cons_append, takeWhile_append_of_stops (stops_of_head? rfl (by decide)),
      List.takeWhile_eq_self_iff.mpr h.label_chars] at htake
    exact htake
  subst hlabel
  obtain rfl : part ++ rest = tail := by simpa using htail
  cases part with
  | nil => exact hrest
  | cons c part => exact stops_of_head? rfl (hblank rfl c rfl)

theorem IsPrefixed.head {label part : List Char} (h : IsPrefixed label part)
    (rest : List Char) :
    ∃ c, (label ++ ':' :: part ++ rest).head? = some c ∧ isOpener c = false ∧
      isNumberStart c = false := by
  cases label with
  | nil => exact ⟨':', rfl, by decide, by decide⟩
  | cons c label =>
      have hchar := h.label_chars c List.mem_cons_self
      have hvalid := h.label_valid
      simp only [isLabel, List.head?_cons, Option.any_some, Bool.and_eq_true, Bool.not_eq_true',
        Bool.or_eq_false_iff] at hvalid
      refine ⟨c, rfl, not_opener _ hchar (by decide), ?_⟩
      have hplus : (c == '+') = false := by
        rw [beq_eq_false_iff_ne]
        rintro rfl
        exact absurd hchar (by decide)
      simp [isNumberStart, hvalid.1.1, hplus]

theorem isAlphabetic_of_isDigit {c : Char} (h : c.isDigit) : isAlphabetic c = false := by
  have hcode : 48 ≤ c.toNat ∧ c.toNat ≤ 57 := Char.isDigit_iff_toNat.mp h
  have halpha : c.isAlpha = false := by
    rw [← Bool.not_eq_true, isAlpha_iff_toNat]
    omega
  have hascii : ¬ 128 ≤ c.toNat := by omega
  simp [isAlphabetic, isWordLetter, halpha, hascii]

theorem IsBareWord.head {word : List Char} (h : IsBareWord word) :
    ∃ c tail, word = c :: tail ∧ isOpener c = false ∧ isNumberStart c = false := by
  cases word with
  | nil => simpa using h.first
  | cons c tail =>
      have hc : (fun d => isAlphabetic d || d == '_') c := by simpa using h.first
      refine ⟨c, tail, rfl, not_opener (fun d => isAlphabetic d || d == '_') hc (by decide), ?_⟩
      have hdigit : c.isDigit = false := by
        by_contra hd
        have := isAlphabetic_of_isDigit (by simpa using hd)
        simp_all
      have hplus : c ≠ '+' := by
        rintro rfl
        exact absurd hc (by decide)
      have hminus : c ≠ '-' := by
        rintro rfl
        exact absurd hc (by decide)
      simp [isNumberStart, hdigit, hplus, hminus]

end Lexeme

namespace Token

open Lexeme

variable {cs rest : List Char} {n : Nat}

theorem first?_iri {body : List Char} (h : ∀ c ∈ body, isIriChar c) (rest : List Char) :
    first? ('<' :: body ++ '>' :: rest) = some (.iri (String.ofList body), body.length + 2) := by
  rw [first?, iriLength?_bracketed h]
  simp

theorem first?_variable {name : List Char} (h : ∀ c ∈ name, Lexeme.isNameChar c) (hne : name ≠ [])
    (hrest : Stops Lexeme.isNameChar rest) :
    first? ('?' :: name ++ rest) = some (.variable (String.ofList name), name.length + 1) := by
  rw [first?, variableLength?_sigil h hne hrest]
  simp [iriLength?]

theorem first?_literal (h : literalLength? cs = some cs.length) (hrest : Stops isQuote rest) :
    first? (cs ++ rest) = some (.literal (String.ofList cs), cs.length) := by
  have hlength := literalLength?_take_append h hrest
  rw [List.take_length] at hlength
  obtain ⟨q, tail, hq, rfl⟩ := exists_of_literalLength? h
  rw [first?, hlength]
  rcases isQuote_iff.mp hq with rfl | rfl <;> simp [iriLength?, variableLength?]

theorem first?_language (h : languageLength? cs = some cs.length)
    (hrest : Stops (fun c => c.isAlphanum || c == '-') rest) :
    first? (cs ++ rest) = some (.language (String.ofList cs), cs.length) := by
  obtain ⟨hhead, hlength⟩ := languageLength?_take_append h hrest
  obtain ⟨tail, rfl⟩ := List.head?_eq_some_iff.mp hhead
  rw [List.take_length] at hlength
  rw [first?, hlength]
  simp [iriLength?, variableLength?, literalLength?, openingQuote?]

theorem first?_of_numberLength? (h : numberLength? cs = some n) :
    first? cs = some (.number (String.ofList (cs.take n)), n) := by
  obtain ⟨c, hhead, hc⟩ := exists_numberStart h
  obtain ⟨hiri, hvariable, hliteral, hlanguage⟩ :=
    openers_eq_none cs (stops_of_head? hhead (not_opener _ hc (by decide)))
  rw [first?, hiri, hvariable, hliteral, hlanguage, h]

theorem first?_number (h : numberLength? cs = some cs.length) (hrest : Stops isNumberPart rest) :
    first? (cs ++ rest) = some (.number (String.ofList cs), cs.length) := by
  have hlength := numberLength?_take_append h hrest
  rw [List.take_length] at hlength
  rw [first?_of_numberLength? hlength, List.take_left]

theorem first?_blank {label : List Char} (h : ∀ c ∈ label, isBlankChar c) (hne : label ≠ [])
    (hrest : Stops isBlankChar rest) :
    first? ('_' :: ':' :: label ++ rest) =
      some (.blank (String.ofList ('_' :: ':' :: label)), label.length + 2) := by
  obtain ⟨hiri, hvariable, hliteral, hlanguage⟩ :=
    openers_eq_none ('_' :: ':' :: label ++ rest) (stops_of_head? rfl (by decide))
  have hnumber : numberLength? ('_' :: ':' :: label ++ rest) = none :=
    numberLength?_eq_none (stops_of_head? rfl (by decide))
  rw [first?, hiri, hvariable, hliteral, hlanguage, hnumber, blankLength?_label h hne hrest]
  simp

theorem first?_prefixed {label part : List Char} (h : IsPrefixed label part)
    (hblank : label = ['_'] → Stops isBlankChar part) (hrest : Stops isLocalChar rest) :
    first? (label ++ ':' :: part ++ rest) =
      some (.prefixed (String.ofList (label ++ ':' :: part)), label.length + 1 + part.length) := by
  have hrestBlank : Stops isBlankChar rest := by
    intro c hc
    have := hrest c hc
    simp_all [isBlankChar, isLocalChar, isLabelChar]
  obtain ⟨c, hhead, hopener, hnumber⟩ := h.head rest
  obtain ⟨hiri, hvariable, hliteral, hlanguage⟩ := openers_eq_none _ (stops_of_head? hhead hopener)
  rw [first?, hiri, hvariable, hliteral, hlanguage,
    numberLength?_eq_none (stops_of_head? hhead hnumber),
    h.blankLength?_append hblank hrestBlank, h.prefixedLength?_append hrest]
  have htake : (label ++ ':' :: part ++ rest).take (label.length + 1 + part.length) =
      label ++ ':' :: part := List.take_left' (by simp; omega)
  exact congrArg (fun text => some (Token.prefixed (String.ofList text), _)) htake

/-- A run of label characters that no colon follows begins no prefixed name. -/
theorem prefixedLength?_append_eq_none {word : List Char} (h : ∀ c ∈ word, isLabelChar c)
    (hcolon : (rest.dropWhile isLabelChar).head? ≠ some ':') :
    prefixedLength? (word ++ rest) = none := by
  refine prefixedLength?_eq_none ?_
  rwa [List.dropWhile_append, List.dropWhile_eq_nil_iff.mpr h, List.isEmpty_nil, if_pos rfl]

theorem isLabelChar_of_isDurationPart {c : Char} (h : isDurationPart c) : isLabelChar c := by
  simp only [isDurationPart, Char.isAlphanum, Bool.or_eq_true] at h
  rcases h with (h | h) | h <;>
    simp [isLabelChar, isAlphanumeric, isAlphabetic, isWordLetter, isDecimalDigit, isWordDigit, h]

theorem first?_fractional {run : List Char} (h : IsFractional run)
    (hrest : Stops isDurationPart rest)
    (hcolon : (rest.dropWhile isLabelChar).head? ≠ some ':') :
    first? (run ++ rest) = some (.word (String.ofList run), run.length) := by
  have hchars : ∀ c ∈ run, isLabelChar c := fun c hc => isLabelChar_of_isDurationPart (h.chars c hc)
  obtain ⟨tail, rfl⟩ := List.head?_eq_some_iff.mp h.first
  obtain ⟨hiri, hvariable, hliteral, hlanguage⟩ :=
    openers_eq_none ('P' :: tail ++ rest) (stops_of_head? rfl (by decide))
  have hnumber : numberLength? ('P' :: tail ++ rest) = none :=
    numberLength?_eq_none (stops_of_head? rfl (by decide))
  have hblank : blankLength? ('P' :: tail ++ rest) = none :=
    blankLength?_eq_none (stops_of_head? rfl (by decide))
  rw [first?, hiri, hvariable, hliteral, hlanguage, hnumber, hblank,
    prefixedLength?_append_eq_none hchars hcolon, h.fractionalDurationLength?_append hrest]
  simp

theorem isLabelChar_of_isNameChar {c : Char} (h : Lexeme.isNameChar c) : isLabelChar c := by
  simp only [Lexeme.isNameChar, Bool.or_eq_true] at h
  simp only [isLabelChar, Bool.or_eq_true]
  exact .inl (.inl h)

theorem first?_bareWord {word : List Char} (h : IsBareWord word) (hname : Stops Lexeme.isNameChar rest)
    (hdot : Stops (· == '.') rest) (hcolon : (rest.dropWhile isLabelChar).head? ≠ some ':') :
    first? (word ++ rest) = some (.word (String.ofList word), word.length) := by
  have hlabel : ∀ c ∈ word, isLabelChar c := fun c hc => isLabelChar_of_isNameChar (h.chars c hc)
  obtain ⟨c, tail, htail, hopener, hnumber⟩ := h.head
  have hhead : (word ++ rest).head? = some c := by rw [htail]; rfl
  obtain ⟨hiri, hvariable, hliteral, hlanguage⟩ :=
    openers_eq_none _ (stops_of_head? hhead hopener)
  have hblank : blankLength? (word ++ rest) = none := by
    rw [blankLength?_eq_none_iff]
    intro others hothers
    have hdrop := congrArg (List.dropWhile isLabelChar) hothers
    rw [List.dropWhile_append, List.dropWhile_eq_nil_iff.mpr hlabel, List.isEmpty_nil,
      if_pos rfl] at hdrop
    exact absurd (congrArg List.head? hdrop) hcolon
  have hduration : Stops isDurationPart rest := by
    intro d hd
    have hd1 := hname d hd
    have hd2 := hdot d hd
    simp_all [Lexeme.isNameChar, isDurationPart, Char.isAlphanum, isAlphanumeric, isAlphabetic,
      isWordLetter, isDecimalDigit, isWordDigit]
  have hfractional : fractionalDurationLength? (word ++ rest) = none := by
    refine fractionalDurationLength?_eq_none fun hmem => ?_
    rw [takeWhile_append_of_stops hduration] at hmem
    exact absurd (h.chars '.' ((List.takeWhile_prefix _).subset hmem)) (by decide)
  rw [first?, hiri, hvariable, hliteral, hlanguage,
    numberLength?_eq_none (stops_of_head? hhead hnumber), hblank,
    prefixedLength?_append_eq_none hlabel hcolon, hfractional, h.wordLength?_append hname]
  simp

/-! ### Lexical tokens -/

/-- The punctuation marks. -/
def marks : List String :=
  ["&&", "||", "!=", "<=", ">=", "\x7b", "\x7d", "(", ")", "[", "]", ".", ",", ";", "=", "<", ">",
    "!", "+", "-", "*", "/", "^", "|", "?"]

/-- The tokens that a text can be split into, by what their own text is made of. -/
inductive Lexical : Token → Prop where
  | iri {body : List Char} (h : ∀ c ∈ body, isIriChar c) : Lexical (.iri (String.ofList body))
  | variable {name : List Char} (h : ∀ c ∈ name, Lexeme.isNameChar c) (hne : name ≠ []) :
      Lexical (.variable (String.ofList name))
  | literal {cs : List Char} (h : literalLength? cs = some cs.length) :
      Lexical (.literal (String.ofList cs))
  | language {cs : List Char} (h : languageLength? cs = some cs.length) :
      Lexical (.language (String.ofList cs))
  | datatypeMark : Lexical .datatypeMark
  | number {cs : List Char} (h : numberLength? cs = some cs.length) :
      Lexical (.number (String.ofList cs))
  | blank {label : List Char} (h : ∀ c ∈ label, isBlankChar c) (hne : label ≠ []) :
      Lexical (.blank (String.ofList ('_' :: ':' :: label)))
  | prefixed {label part : List Char} (h : IsPrefixed label part)
      (hblank : label = ['_'] → Stops isBlankChar part) :
      Lexical (.prefixed (String.ofList (label ++ ':' :: part)))
  | fractional {run : List Char} (h : IsFractional run) : Lexical (.word (String.ofList run))
  | word {word : List Char} (h : IsBareWord word) : Lexical (.word (String.ofList word))
  | punct {mark : String} (h : mark ∈ marks) : Lexical (.punct mark)

theorem mem_marks_of_punctLength? (h : punctLength? cs = some n) :
    String.ofList (cs.take n) ∈ marks := by
  unfold punctLength? at h
  split at h
  · cases h
    exact (by decide : String.ofList ['&', '&'] ∈ marks)
  · cases h
    exact (by decide : String.ofList ['|', '|'] ∈ marks)
  · cases h
    exact (by decide : String.ofList ['!', '='] ∈ marks)
  · cases h
    exact (by decide : String.ofList ['<', '='] ∈ marks)
  · cases h
    exact (by decide : String.ofList ['>', '='] ∈ marks)
  · next c _ _ _ _ _ _ =>
    split at h
    · next hc =>
      cases h
      have hsingle : ∀ d ∈ "\x7b\x7d()[].,;=<>!+-*/^|?".toList, String.ofList [d] ∈ marks := by
        decide
      exact hsingle c (by simpa using hc)
    · cases h
  · cases h

/-! ### What is found at the start of a text -/

/-- The tokens that are found at the start of a text and the number of characters that form them, one
case for each class of token. -/
inductive Found (cs : List Char) : Token → Nat → Prop where
  | iri {n : Nat} (h : iriLength? cs = some n) :
      Found cs (.iri (String.ofList ((cs.take (n - 1)).drop 1))) n
  | variable {n : Nat} (h : variableLength? cs = some n) :
      Found cs (.variable (String.ofList ((cs.take n).drop 1))) n
  | literal {n : Nat} (h : literalLength? cs = some n) :
      Found cs (.literal (String.ofList (cs.take n))) n
  | language {n : Nat} (h : languageLength? cs = some n) :
      Found cs (.language (String.ofList (cs.take n))) n
  | number {n : Nat} (h : numberLength? cs = some n) :
      Found cs (.number (String.ofList (cs.take n))) n
  | blank {n : Nat} (h : blankLength? cs = some n) : Found cs (.blank (String.ofList (cs.take n))) n
  | prefixed {n : Nat} (hblank : blankLength? cs = none) (h : prefixedLength? cs = some n) :
      Found cs (.prefixed (String.ofList (cs.take n))) n
  | fractional {n : Nat} (h : fractionalDurationLength? cs = some n) :
      Found cs (.word (String.ofList (cs.take n))) n
  | word {n : Nat} (h : wordLength? cs = some n) : Found cs (.word (String.ofList (cs.take n))) n
  | datatypeMark (h : ['^', '^'] <+: cs) : Found cs .datatypeMark 2
  | punct {n : Nat} (h : punctLength? cs = some n) : Found cs (.punct (String.ofList (cs.take n))) n

theorem found_of_first? {token : Token} (h : first? cs = some (token, n)) : Found cs token n := by
  -- the classes in the order in which they are tried
  unfold first? at h
  dsimp only at h
  split at h
  · next hn =>
    cases h
    exact .iri hn
  split at h
  · next hn =>
    cases h
    exact .variable hn
  split at h
  · next hn =>
    cases h
    exact .literal hn
  split at h
  · next hn =>
    cases h
    exact .language hn
  split at h
  · next hn =>
    cases h
    exact .number hn
  split at h
  · next hn =>
    cases h
    exact .blank hn
  next hblank =>
  split at h
  · next hn =>
    cases h
    exact .prefixed (Option.eq_none_iff_forall_ne_some.mpr hblank) hn
  split at h
  · next hn =>
    cases h
    exact .fractional hn
  split at h
  · next hn =>
    cases h
    exact .word hn
  split at h
  · next hmark =>
    cases h
    exact .datatypeMark (after?_isSome_iff.mp hmark)
  split at h
  · next hn =>
    cases h
    exact .punct hn
  · cases h

/-- What stands between the angle brackets of an IRI. -/
theorem drop_take_iri {body : List Char} (h : cs.take (body.length + 2) = '<' :: body ++ ['>']) :
    (cs.take (body.length + 2 - 1)).drop 1 = body := by
  have hpiece := congrArg (List.take (body.length + 1)) h
  rw [List.take_take, Nat.min_eq_left (Nat.le_succ _)] at hpiece
  simp [hpiece]

/-- Every token that is found in a text is lexical. -/
theorem lexical_of_first? {token : Token} (h : first? cs = some (token, n)) : token.Lexical := by
  cases found_of_first? h with
  | iri hn =>
      obtain ⟨body, hbody, htake, rfl⟩ := iriLength?_eq_some hn
      rw [drop_take_iri htake]
      exact .iri hbody
  | «variable» hn =>
      obtain ⟨sigil, name, hname, hne, htake, -⟩ := variableLength?_eq_some hn
      rw [htake]
      exact .variable hname hne
  | literal hn =>
      have hlength := literalLength?_take_append hn (stops_nil isQuote)
      rw [List.append_nil] at hlength
      exact .literal (by rw [hlength, List.length_take, Nat.min_eq_left (literalLength?_le hn)])
  | language hn =>
      obtain ⟨tag, -, htake, hlast⟩ := languageLength?_eq_some hn
      have hlength := (languageLength?_take_append hn (stops_nil _)).2
      rw [List.append_nil] at hlength
      exact .language (by rw [hlength, htake, hlast, List.length_cons])
  | number hn =>
      have hlength := numberLength?_take_append hn (stops_nil isNumberPart)
      rw [List.append_nil] at hlength
      exact .number (by rw [hlength, List.length_take, Nat.min_eq_left (numberLength?_le hn)])
  | blank hn =>
      obtain ⟨label, hlabel, hne, htake, -⟩ := blankLength?_eq_some hn
      rw [htake]
      exact .blank hlabel hne
  | «prefixed» hblank hn =>
      obtain ⟨label, part, hname, htake, -⟩ := prefixedLength?_eq_some hn
      rw [htake]
      refine .prefixed hname ?_
      rintro rfl
      -- behind an underscore as the label, no blank node was found
      have hcs := List.take_append_drop n cs
      rw [htake] at hcs
      have hstop := blankLength?_eq_none_iff.mp hblank _ hcs.symm
      intro c hc
      exact hstop c (by simp [Option.mem_def.mp hc])
  | fractional hn =>
      obtain ⟨run, hrun, rfl, -⟩ := fractionalDurationLength?_eq_some hn
      exact .fractional hrun
  | word hn =>
      obtain ⟨word, hword, rfl, -⟩ := wordLength?_eq_some hn
      exact .word hword
  | datatypeMark => exact .datatypeMark
  | punct hn => exact .punct (mem_marks_of_punctLength? hn)

/-! ### Reading a token again -/

/-- A character behind the space is one of an IRI, unless it closes the IRI or needs an escape. -/
theorem isIriChar_of_space_lt {c : Char} (hspace : ' '.toNat < c.toNat)
    (hother : c ∉ "<>\"\x7b\x7d|^\x60\\".toList) : isIriChar c := by
  rw [isIriChar, Bool.and_eq_true, decide_eq_true_eq, Bool.not_eq_true', ← Bool.not_eq_true,
    List.contains_iff_mem, Char.lt_def, UInt32.lt_iff_toNat_lt, Char.toNat_val, Char.toNat_val]
  exact ⟨hspace, hother⟩

theorem isIriChar_of_isAlphanum {c : Char} (h : c.isAlphanum) : isIriChar c := by
  refine isIriChar_of_space_lt ?_ fun hmem => ?_
  · rw [isAlphanum_iff_toNat] at h
    have hsp : ' '.toNat = 32 := rfl
    omega
  · have hall : ∀ d ∈ "<>\"\x7b\x7d|^\x60\\".toList, d.isAlphanum = false := by decide
    rw [hall c hmem] at h
    cases h

/-- The beginnings of text that cannot continue any token but a caret: the end, a space, the end of
a line, a bracket, or what is written close behind a literal. The part on angle brackets keeps a
comparison from turning into an IRI. -/
structure Boundary (rest : List Char) : Prop where
  head : ∀ c ∈ rest.head?, c ∈ [' ', '\n', '@', '^', ']']
  open_iri : (rest.dropWhile isIriChar).head? ≠ some '>'

namespace Boundary

theorem stops (h : Boundary rest) {allowed : Char → Bool}
    (hall : ∀ c ∈ [' ', '\n', '@', '^', ']'], allowed c = false) : Stops allowed rest :=
  fun c hc => hall c (h.head c hc)

/-- A boundary that begins with what no IRI holds. -/
theorem of_head {c : Char} (h : c ∈ [' ', '\n', '^']) (rest : List Char) :
    Boundary (c :: rest) where
  head := by
    intro d hd
    cases hd
    revert c
    decide
  open_iri := by
    have hstop : isIriChar c = false ∧ c ≠ '>' := by
      revert c
      decide
    simp [hstop]

theorem nil : Boundary [] where
  head := nofun
  open_iri := nofun

theorem bracket (h : Boundary rest) : Boundary (']' :: rest) where
  head := by
    intro c hc
    cases hc
    decide
  open_iri := by
    rw [List.dropWhile_cons_of_pos (by decide)]
    exact h.open_iri

theorem language {tag : List Char} (htag : ∀ c ∈ tag, c.isAlphanum || c == '-')
    (h : Boundary rest) : Boundary ('@' :: tag ++ rest) where
  head := by
    intro c hc
    cases hc
    decide
  open_iri := by
    have hall : ∀ c ∈ '@' :: tag, isIriChar c := by
      intro c hc
      rcases List.mem_cons.mp hc with rfl | hc
      · decide
      · have hchar := htag c hc
        rw [Bool.or_eq_true, beq_iff_eq] at hchar
        rcases hchar with hchar | rfl
        · exact isIriChar_of_isAlphanum hchar
        · decide
    rw [List.dropWhile_append, List.dropWhile_eq_nil_iff.mpr hall, List.isEmpty_nil, if_pos rfl]
    exact h.open_iri

theorem no_colon (h : Boundary rest) : (rest.dropWhile isLabelChar).head? ≠ some ':' := by
  cases rest with
  | nil => nofun
  | cons c rest =>
      have hc : isLabelChar c = false ∧ c ≠ ':' := by
        have hall : ∀ d ∈ [' ', '\n', '@', '^', ']'], isLabelChar d = false ∧ d ≠ ':' := by decide
        exact hall c (h.head c rfl)
      simp [hc]

end Boundary

/-- A text that begins with neither a name nor a value. -/
structure BeginsWithMark (cs : List Char) : Prop where
  iri : iriLength? cs = none
  sigil : variableLength? cs = none
  literal : literalLength? cs = none
  language : languageLength? cs = none
  number : numberLength? cs = none
  blank : blankLength? cs = none
  label : prefixedLength? cs = none
  fractional : fractionalDurationLength? cs = none
  word : wordLength? cs = none

theorem BeginsWithMark.first?_eq (h : BeginsWithMark cs) :
    first? cs = if (after? ['^', '^'] cs).isSome then some (.datatypeMark, 2)
      else (punctLength? cs).map fun n => (.punct (String.ofList (cs.take n)), n) := by
  rw [first?, h.iri, h.sigil, h.literal, h.language, h.number, h.blank, h.label,
    h.fractional, h.word]
  cases punctLength? cs <;> rfl

theorem blankLength?_eq_none_of_stops (h : Stops isLabelChar cs) : blankLength? cs = none := by
  rw [blankLength?_eq_none_iff]
  rintro tail rfl
  exact absurd (h '_' rfl) (by decide)

theorem fractionalDurationLength?_eq_none_of_head (h : cs.head? ≠ some 'P') :
    fractionalDurationLength? cs = none := by
  rw [fractionalDurationLength?_eq]
  refine if_neg fun hrun => h ?_
  obtain ⟨tail, htail⟩ := List.head?_eq_some_iff.mp hrun.1
  have hbegin := (trimRight_isPrefix '.' (cs.takeWhile isDurationPart)).trans
    (List.takeWhile_prefix _)
  rw [htail] at hbegin
  obtain ⟨others, rfl⟩ := hbegin
  rfl

theorem wordLength?_eq_none (h : Stops (fun c => isAlphabetic c || c == '_') cs) :
    wordLength? cs = none := by
  cases cs with
  | nil => rfl
  | cons c cs => exact if_neg (by simpa using h c rfl)

/-- What begins with a character of its own begins with a mark, if it is no IRI and no variable. -/
theorem BeginsWithMark.of_symbol {c : Char} {tail : List Char} (hiri : iriLength? (c :: tail) = none)
    (hvariable : variableLength? (c :: tail) = none) (hnumber : numberLength? (c :: tail) = none)
    (hquote : isQuote c = false) (hlabel : isLabelChar c = false) (hcolon : c ≠ ':')
    (hat : c ≠ '@') : BeginsWithMark (c :: tail) where
  iri := hiri
  sigil := hvariable
  literal := by
    simp only [isQuote, Bool.or_eq_false_iff, beq_eq_false_iff_ne] at hquote
    simp [literalLength?, openingQuote?, hquote]
  language := by simp [languageLength?, hat]
  number := hnumber
  blank := blankLength?_eq_none_of_stops (stops_of_head? rfl hlabel)
  label := prefixedLength?_eq_none (by simp [hlabel, hcolon])
  fractional := by
    refine fractionalDurationLength?_eq_none_of_head fun hc => ?_
    cases hc
    exact absurd hlabel (by decide)
  word := by
    refine wordLength?_eq_none (stops_of_head? rfl ?_)
    simp only [isLabelChar, isAlphanumeric, Bool.or_eq_false_iff] at hlabel
    simp [hlabel]

/-- A hyphen or a dot begins no label. -/
theorem BeginsWithMark.of_inner {c : Char} {tail : List Char} (hc : c = '-' ∨ c = '.')
    (hnumber : numberLength? (c :: tail) = none) : BeginsWithMark (c :: tail) := by
  have hopener : isOpener c = false := by rcases hc with rfl | rfl <;> rfl
  obtain ⟨hiri, hvariable, hliteral, hlanguage⟩ :=
    openers_eq_none (c :: tail) (stops_of_head? rfl hopener)
  refine ⟨hiri, hvariable, hliteral, hlanguage, hnumber, ?_, ?_, ?_, ?_⟩
  · exact blankLength?_eq_none (stops_of_head? rfl (by rcases hc with rfl | rfl <;> rfl))
  · have hinvalid : ∀ label, isLabel (c :: label) = false := by
      intro label
      rcases hc with rfl | rfl <;> rfl
    unfold prefixedLength?
    rw [List.takeWhile_cons_of_pos (by rcases hc with rfl | rfl <;> decide)]
    dsimp only
    split
    · rw [if_neg (by rw [hinvalid]; exact Bool.false_ne_true)]
    · rfl
  · refine fractionalDurationLength?_eq_none_of_head fun h => ?_
    cases h
    exact absurd hc (by decide)
  · refine wordLength?_eq_none (stops_of_head? rfl ?_)
    rcases hc with rfl | rfl <;> decide

/-- A sign is no number unless a digit follows. -/
theorem numberLength?_sign {c : Char} (hc : c = '+' ∨ c = '-') (hrest : Stops Char.isDigit rest) :
    numberLength? (c :: rest) = none := by
  have hsign : sign (c :: rest) = 1 := by
    rcases hc with rfl | rfl <;> rfl
  have hcount : count1? Char.isDigit rest = none := count1?_eq_none_iff.mpr hrest
  simp [numberLength?, hsign, hcount]

/-- A hyphen is a token of its own unless a digit follows. -/
theorem first?_hyphen (hrest : Stops Char.isDigit rest) :
    first? ('-' :: rest) = some (.punct "-", 1) := by
  rw [(BeginsWithMark.of_inner (.inl rfl) (numberLength?_sign (.inr rfl) hrest)).first?_eq]
  rfl

theorem first?_datatypeMark (rest : List Char) :
    first? ('^' :: '^' :: rest) = some (.datatypeMark, 2) := by
  have hbegins : BeginsWithMark ('^' :: '^' :: rest) :=
    .of_symbol rfl rfl (numberLength?_eq_none (stops_of_head? rfl (by decide))) (by decide)
      (by decide) (by decide) (by decide)
  rw [hbegins.first?_eq]
  rfl

/-- The marks that begin with a character of their own. -/
theorem BeginsWithMark.of_mem {c : Char} (hc : c ∈ "&|!>\x7b\x7d()[],;=*/^".toList)
    (tail : List Char) : BeginsWithMark (c :: tail) := by
  have hall : ∀ d ∈ "&|!>\x7b\x7d()[],;=*/^".toList, isOpener d = false ∧
      isNumberStart d = false ∧ isQuote d = false ∧ isLabelChar d = false ∧ d ≠ ':' ∧ d ≠ '@' := by
    decide
  obtain ⟨hopener, hnumber, hquote, hlabel, hcolon, hat⟩ := hall c hc
  obtain ⟨hiri, hvariable, -, -⟩ := openers_eq_none (c :: tail) (stops_of_head? rfl hopener)
  exact .of_symbol hiri hvariable (numberLength?_eq_none (stops_of_head? rfl hnumber)) hquote
    hlabel hcolon hat

theorem BeginsWithMark.of_less {tail : List Char}
    (h : (tail.dropWhile isIriChar).head? ≠ some '>') : BeginsWithMark ('<' :: tail) := by
  rw [← drop_count] at h
  exact .of_symbol (if_neg h) rfl (numberLength?_eq_none (stops_of_head? rfl (by decide)))
    (by decide) (by decide) (by decide) (by decide)

theorem BeginsWithMark.of_mark {mark : String} (h : mark ∈ marks) (hrest : Boundary rest) :
    BeginsWithMark (mark.toList ++ rest) := by
  have hmarks : ∀ m ∈ marks, m.toList.head?.any ("&|!>\x7b\x7d()[],;=*/^".toList.contains ·) ∨
      m ∈ ["<", "<=", "?", "+", "-", "."] := by decide
  have hdigit : Stops Char.isDigit rest := hrest.stops (by decide)
  rcases hmarks mark h with hsymbol | hother
  · obtain ⟨c, hc, hmem⟩ := (Option.any_eq_true _ _).mp hsymbol
    obtain ⟨tail, htail⟩ := List.head?_eq_some_iff.mp hc
    rw [htail]
    exact .of_mem (by simpa using hmem) _
  · simp only [List.mem_cons, List.not_mem_nil, or_false] at hother
    rcases hother with rfl | rfl | rfl | rfl | rfl | rfl
    · exact .of_less hrest.open_iri
    · have htail : (('=' :: rest).dropWhile isIriChar).head? ≠ some '>' := by
        rw [List.dropWhile_cons_of_pos (by decide)]
        exact hrest.open_iri
      exact .of_less htail
    · have hname : count1? Lexeme.isNameChar rest = none :=
        count1?_eq_none_iff.mpr (hrest.stops (by decide))
      refine .of_symbol rfl ?_ (numberLength?_eq_none (stops_of_head? rfl (by decide)))
        (by decide) (by decide) (by decide) (by decide)
      exact congrArg (Option.map (· + 1)) hname
    · exact .of_symbol rfl rfl (numberLength?_sign (.inl rfl) hdigit) (by decide) (by decide)
        (by decide) (by decide)
    · exact .of_inner (.inl rfl) (numberLength?_sign (.inr rfl) hdigit)
    · exact .of_inner (.inr rfl) (numberLength?_eq_none (stops_of_head? rfl (by decide)))

theorem punctLength?_single {c : Char} (hc : "\x7b\x7d()[].,;=<>!+-*/^|?".toList.contains c)
    (hrest : Stops (fun d => d == '&' || d == '|' || d == '=') rest) :
    punctLength? (c :: rest) = some 1 := by
  unfold punctLength?
  split
  case h_6 h =>
      cases h
      rw [if_pos hc]
  case h_7 h => cases h
  -- the marks of two characters
  all_goals
    next h =>
      cases h
      exact absurd (hrest _ rfl) (by decide)

theorem punctLength?_mark {mark : String} (h : mark ∈ marks) (hrest : Boundary rest) :
    punctLength? (mark.toList ++ rest) = some mark.toList.length := by
  have hmarks : ∀ m ∈ marks, m ∈ ["&&", "||", "!=", "<=", ">="] ∨
      (m.toList.length = 1 ∧ m.toList.all ("\x7b\x7d()[].,;=<>!+-*/^|?".toList.contains ·)) := by
    decide
  rcases hmarks mark h with hdouble | ⟨hlength, hsingle⟩
  · simp only [List.mem_cons, List.not_mem_nil, or_false] at hdouble
    rcases hdouble with rfl | rfl | rfl | rfl | rfl <;> rfl
  · obtain ⟨c, hc⟩ := List.length_eq_one_iff.mp hlength
    rw [hc] at hsingle ⊢
    exact punctLength?_single (by simpa using hsingle) (hrest.stops (by decide))

theorem first?_punct {mark : String} (h : mark ∈ marks) (hrest : Boundary rest)
    (hcaret : mark = "^" → rest.head? ≠ some '^') :
    first? (mark.toList ++ rest) = some (.punct mark, mark.toList.length) := by
  have hnot : ¬ ['^', '^'] <+: mark.toList ++ rest := by
    have hmarks : ∀ m ∈ marks, m = "^" ∨ m.toList ≠ [] ∧ m.toList.head? ≠ some '^' := by decide
    rintro ⟨others, hothers⟩
    rcases hmarks mark h with rfl | ⟨hne, hhead⟩
    · exact hcaret rfl (by simpa using (congrArg (fun cs => (cs.drop 1).head?) hothers).symm)
    · obtain ⟨c, tail, htail⟩ := List.exists_cons_of_ne_nil hne
      rw [htail] at hothers hhead
      exact hhead (congrArg List.head? hothers).symm
  rw [(BeginsWithMark.of_mark h hrest).first?_eq, if_neg (after?_isSome_iff.not.mpr hnot),
    punctLength?_mark h hrest]
  simp

/-- A lexical token is found again in front of a boundary. -/
theorem Lexical.first?_append {token : Token} (h : token.Lexical) (hrest : Boundary rest)
    (hcaret : token = .punct "^" → rest.head? ≠ some '^') :
    first? (token.text.toList ++ rest) = some (token, token.text.toList.length) := by
  cases h with
  | iri hbody =>
      simpa [text, String.toList_append] using first?_iri hbody rest
  | «variable» hname hne =>
      simpa [text, String.toList_append] using first?_variable hname hne (hrest.stops (by decide))
  | literal h => simpa [text] using first?_literal h (hrest.stops (by decide))
  | language h => simpa [text] using first?_language h (hrest.stops (by decide))
  | datatypeMark => exact first?_datatypeMark rest
  | number h => simpa [text] using first?_number h (hrest.stops (by decide))
  | blank h hne => simpa [text] using first?_blank h hne (hrest.stops (by decide))
  | «prefixed» h hblank =>
      have hread := first?_prefixed h hblank (hrest.stops (by decide))
      rw [Nat.add_assoc, Nat.add_comm 1] at hread
      simpa [text] using hread
  | fractional h =>
      simpa [text] using first?_fractional h (hrest.stops (by decide)) hrest.no_colon
  | word h =>
      simpa [text] using
        first?_bareWord h (hrest.stops (by decide)) (hrest.stops (by decide)) hrest.no_colon
  | punct h => exact first?_punct h hrest fun hmark => hcaret (congrArg _ hmark)

/-- A word is made of what a label is made of. -/
theorem Lexical.word_chars {word : String} (h : (Token.word word).Lexical) :
    ∀ c ∈ word.toList, isLabelChar c := by
  cases h with
  | fractional h =>
      rw [String.toList_ofList]
      exact fun c hc => isLabelChar_of_isDurationPart (h.chars c hc)
  | word h =>
      rw [String.toList_ofList]
      exact fun c hc => isLabelChar_of_isNameChar (h.chars c hc)

/-- A word of letters is a token. -/
theorem Lexical.of_isAlpha {word : String} (hne : word ≠ "")
    (h : ∀ c ∈ word.toList, c.isAlpha) : (Token.word word).Lexical := by
  have halphabetic : ∀ c ∈ word.toList, isAlphabetic c := fun c hc => by
    simp [isAlphabetic, isWordLetter, h c hc]
  rw [← String.ofList_toList (s := word)]
  refine .word ⟨fun c hc => ?_, ?_⟩
  · simp [Lexeme.isNameChar, isAlphanumeric, halphabetic c hc]
  · cases hcs : word.toList with
    | nil => exact absurd (String.toList_eq_nil_iff.mp hcs) hne
    | cons c cs => simp [halphabetic c (hcs ▸ List.mem_cons_self)]

end Token

end StreamQuery
