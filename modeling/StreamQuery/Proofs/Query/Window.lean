import StreamQuery.Proofs.Duration
import StreamQuery.Proofs.Except
import StreamQuery.Proofs.Query.Name
import StreamQuery.Proofs.Query.Page
import StreamQuery.Proofs.Token.Segment
import StreamQuery.Query.Printer

/-! # Reading windows

What is read from the slots of a window is written as one token a slot, and read again from that
token. A declaration ends with the first closing bracket behind its beginning.
-/

namespace StreamQuery

open Text Lexeme Token

/-- What is left behind tokens that hold no closing bracket. -/
def Leaves (ts rest : List Token) : Prop :=
  ∃ used, ts = used ++ rest ∧ ∀ t ∈ used, ¬ t.isPunct "]"

namespace Leaves

variable {ts us rest : List Token} {t : Token}

theorem refl (ts : List Token) : Leaves ts ts := ⟨[], rfl, nofun⟩

theorem cons (ht : ¬ t.isPunct "]") (h : Leaves ts rest) : Leaves (t :: ts) rest := by
  obtain ⟨used, rfl, hused⟩ := h
  exact ⟨t :: used, rfl, List.forall_mem_cons.mpr ⟨ht, hused⟩⟩

theorem trans (h : Leaves ts us) (h' : Leaves us rest) : Leaves ts rest := by
  obtain ⟨first, rfl, hfirst⟩ := h
  obtain ⟨second, rfl, hsecond⟩ := h'
  exact ⟨first ++ second, (List.append_assoc _ _ _).symm,
    List.forall_mem_append.mpr ⟨hfirst, hsecond⟩⟩

theorem lexical (h : Leaves ts rest) (hts : ∀ t ∈ ts, t.Lexical) : ∀ t ∈ rest, t.Lexical := by
  obtain ⟨used, rfl, -⟩ := h
  exact fun t ht => hts t (List.mem_append_right _ ht)

end Leaves

/-! ### Slots -/

theorem Literal.value_typed (value datatype : String) :
    (Literal.typed value datatype).value = value := by
  unfold Literal.typed
  split <;> rfl

/-- The token in a slot. -/
def Term.slotToken (prefixes : PrefixMapping) (measure : QueryReader.Measure) : Term → Token
  | .literal l =>
    match measure with
    | .duration => .word l.value
    | .count => .number l.value
  | term => term.nameToken prefixes

theorem Term.text_slotToken (prefixes : PrefixMapping) (measure : QueryReader.Measure)
    (term : Term) : (term.slotToken prefixes measure).text = term.slotText prefixes := by
  cases term with
  | iri i => exact text_nameToken prefixes (.iri i)
  | literal l => cases measure <;> rfl
  | «variable» v => rfl

/-- A value without blanks around it and without a minus sign. -/
def Term.IsBare (term : Term) : Prop :=
  ∀ l, term = .literal l → trim l.value.toList = l.value.toList ∧ l.value.toList.head? ≠ some '-'

namespace QueryReader

variable {prefixes : PrefixMapping} {measure : Measure} {slot : String} {term : Term}
  {ts rest : List Token}

/-- What can stand in a slot and be written there. -/
inductive Measure.Fits : Measure → Term → Prop
  | variable {measure : Measure} {v : Variable} (h : (Token.variable v.name).Lexical) :
      Fits measure (.variable v)
  | duration {value : String} (hlexical : (Token.word value).Lexical)
      (hvalid : (DurationFields.ofLexical? value).isSome) :
      Fits .duration (.literal (.typed value "http://www.w3.org/2001/XMLSchema#duration"))
  | count {n : Nat} (h : n < countLimit) : Fits .count (.ofCount n)

/-- What can be read from a slot. -/
inductive Measure.Holds : Measure → Term → Prop
  | variable {measure : Measure} {v : Variable} (h : (Token.variable v.name).Lexical) :
      Holds measure (.variable v)
  | duration {value : String} (hvalid : (DurationFields.ofLexical? value).isSome) :
      Holds .duration (.literal (.typed value "http://www.w3.org/2001/XMLSchema#duration"))
  | count {n : Nat} (h : n < countLimit) : Holds .count (.ofCount n)

/-- What was read from a slot can be written there, if it is without blanks around it and without a
minus sign. -/
theorem Measure.Holds.fits (h : measure.Holds term) (hbare : measure = .duration → term.IsBare) :
    measure.Fits term := by
  cases h with
  | «variable» h => exact .variable h
  | @duration value hvalid =>
      obtain ⟨htrim, hsign⟩ := hbare rfl _ rfl
      exact .duration (.duration hvalid htrim hsign) hvalid
  | count h => exact .count h

theorem Measure.Fits.holds (h : measure.Fits term) : measure.Holds term := by
  cases h with
  | «variable» h => exact .variable h
  | duration _ hvalid => exact .duration hvalid
  | count h => exact .count h

/-- Digits are a number. -/
theorem numberLength?_digits {digits : List Char} (hne : digits ≠ []) (hdigits : ∀ c ∈ digits, c.isDigit) :
    numberLength? digits = some digits.length := by
  have hsign : sign digits = 0 := by
    obtain ⟨c, cs, hcons⟩ := List.exists_cons_of_ne_nil hne
    have hc : c.isDigit := hdigits c (hcons ▸ List.mem_cons_self)
    rw [hcons]
    unfold sign
    split
    · next heq =>
      cases heq
      exact absurd hc (by decide)
    · next heq =>
      cases heq
      exact absurd hc (by decide)
    · rfl
  refine numberLength?_eq_some_iff.mpr
    ⟨0, digits.length, 0, 0, hsign, count_self hdigits, ?_, ?_, ?_, by simp⟩
  · exact fun hlength => hne (List.eq_nil_of_length_eq_zero hlength)
  · rw [Nat.zero_add, List.drop_length]
    rfl
  · rw [Nat.zero_add, Nat.add_zero, List.drop_length]
    rfl

theorem numberLength?_decimal (n : Nat) : numberLength? (decimal n) = some (decimal n).length :=
  numberLength?_digits Nat.toDigits_ne_nil fun _ hc => isDigit_of_mem_decimal hc

theorem lexical_decimal (n : Nat) : (Token.number (String.ofList (decimal n))).Lexical :=
  .number (numberLength?_decimal n)

/-- A count is a number. -/
theorem lexical_of_readCount? {text : String} {n : Nat} (h : readCount? text = some n) :
    (Token.number text).Lexical := by
  obtain ⟨digits, htext, hne, hall⟩ := exists_digits_of_readCount? h
  rw [← String.ofList_toList (s := text)]
  rcases htext with htext | htext
  · rw [htext]
    exact .number (numberLength?_digits hne hall)
  · rw [htext]
    refine .number (numberLength?_eq_some_iff.mpr ⟨1, digits.length, 0, 0, rfl, count_self hall, ?_, ?_, ?_, ?_⟩)
    · exact (List.length_pos_iff.mpr hne).ne'
    · simp [Nat.add_comm 1, fraction]
    · simp [Nat.add_comm 1, exponent]
    · simp [Nat.add_comm 1]

theorem Measure.Fits.lexical (h : measure.Fits term) :
    (term.slotToken prefixes measure).Lexical := by
  cases h with
  | «variable» h => exact h
  | duration hlexical => exact hlexical
  | count => exact lexical_decimal _

theorem Measure.Fits.fusesBehindHyphen (h : Measure.duration.Fits term) :
    (term.slotToken prefixes .duration).fusesBehindHyphen = false := by
  cases h <;> rfl

theorem durationTerm_eq_ok_iff {value : String} : durationTerm value = .ok term ↔
    (DurationFields.ofLexical? value).isSome ∧
      term = .literal (.typed value "http://www.w3.org/2001/XMLSchema#duration") := by
  unfold durationTerm Term.duration Duration.parseFields
  cases DurationFields.ofLexical? value with
  | none => exact ⟨nofun, fun h => absurd h.1 nofun⟩
  | some fields =>
      constructor
      · intro h
        cases h
        exact ⟨rfl, rfl⟩
      · rintro ⟨-, rfl⟩
        rfl

theorem countTerm_eq_ok_iff {digits : String} : countTerm slot digits = .ok term ↔
    ∃ n, readCount? digits = some n ∧ term = .ofCount n := by
  unfold countTerm
  cases readCount? digits with
  | none => simp
  | some n => simp [eq_comm]

/-- What fits a slot is read from its token. -/
theorem Measure.Fits.readSlot (h : measure.Fits term) (slot : String) (rest : List Token) :
    readSlot prefixes measure slot (term.slotToken prefixes measure :: rest) = .ok (term, rest) := by
  cases h with
  | @«variable» _ v h =>
      exact bind_eq_ok_iff.mpr ⟨_, Term.ofVariable_name v, rfl⟩
  | duration hlexical hvalid =>
      exact bind_eq_ok_iff.mpr ⟨_, durationTerm_eq_ok_iff.mpr ⟨hvalid, rfl⟩, rfl⟩
  | count h => 
      exact bind_eq_ok_iff.mpr ⟨_, countTerm_eq_ok_iff.mpr ⟨_, readCount?_decimal h, rfl⟩, rfl⟩

theorem Measure.Fits.ofDuration (d : Duration) : Measure.duration.Fits (.ofDuration d) :=
  .duration d.isLexical_word d.lexical_valid.1

theorem fits_of_millisTerm {digits : String} (h : millisTerm slot digits = .ok term) :
    Measure.duration.Fits term := by
  unfold millisTerm at h
  split at h
  · split at h
    · next n _ hn =>
      cases h
      exact .ofDuration (.ofMillis n hn)
    · cases h
  · cases h

theorem holds_of_durationTerm {value : String} (h : durationTerm value = .ok term) :
    Measure.duration.Holds term := by
  obtain ⟨hvalid, rfl⟩ := durationTerm_eq_ok_iff.mp h
  exact .duration hvalid

theorem holds_of_countTerm {digits : String} (h : countTerm slot digits = .ok term) :
    Measure.count.Holds term := by
  obtain ⟨n, hn, rfl⟩ := countTerm_eq_ok_iff.mp h
  exact .count (lt_of_readCount? hn)

theorem leaves_of_readDatatype {datatype : Option String}
    (h : readDatatype prefixes ts = .ok (datatype, rest)) : Leaves ts rest := by
  unfold readDatatype at h
  split at h
  · next name others =>
    obtain ⟨text, htext, heq⟩ := bind_eq_ok_iff.mp h
    cases heq
    obtain ⟨named, hname, -⟩ := bind_eq_ok_iff.mp htext
    refine .cons nofun (.cons ?_ (.refl _))
    rcases resolve_cases hname with ⟨i, -, rfl⟩ | ⟨i, full, -, rfl, -⟩ | ⟨v, -, rfl⟩ <;> exact nofun
  · cases h
  · cases h
    exact .refl _

theorem holds_of_readQuoted {lexeme : String}
    (h : readQuoted prefixes measure slot lexeme ts = .ok (term, rest)) :
    measure.Holds term ∧ Leaves ts rest := by
  obtain ⟨⟨datatype, others⟩, hdatatype, hvalue⟩ := bind_eq_ok_iff.mp h
  have hleaves := leaves_of_readDatatype hdatatype
  cases measure with
  | duration =>
      dsimp only at hvalue
      split at hvalue
      · obtain ⟨_, hterm, heq⟩ := bind_eq_ok_iff.mp hvalue
        cases heq
        exact ⟨holds_of_durationTerm hterm, hleaves⟩
      · cases hvalue
  | count =>
      dsimp only at hvalue
      split at hvalue
      · obtain ⟨_, hterm, heq⟩ := bind_eq_ok_iff.mp hvalue
        cases heq
        exact ⟨holds_of_countTerm hterm, hleaves⟩
      · cases hvalue

theorem holds_of_readSlot (h : readSlot prefixes measure slot ts = .ok (term, rest))
    (hts : ∀ t ∈ ts, t.Lexical) : measure.Holds term ∧ Leaves ts rest := by
  cases ts with
  | nil => cases h
  | cons token ts =>
      cases token with
      | «variable» name =>
          obtain ⟨_, hterm, heq⟩ := bind_eq_ok_iff.mp h
          cases heq
          obtain ⟨v, rfl, rfl⟩ := Term.ofVariable_eq_ok hterm
          exact ⟨.variable (hts _ List.mem_cons_self), .cons nofun (.refl _)⟩
      | number digits =>
          cases measure with
          | duration =>
              obtain ⟨_, hterm, heq⟩ := bind_eq_ok_iff.mp h
              cases heq
              exact ⟨(fits_of_millisTerm hterm).holds, .cons nofun (.refl _)⟩
          | count =>
              obtain ⟨_, hterm, heq⟩ := bind_eq_ok_iff.mp h
              cases heq
              exact ⟨holds_of_countTerm hterm, .cons nofun (.refl _)⟩
      | word word =>
          cases measure with
          | duration =>
              obtain ⟨_, hterm, heq⟩ := bind_eq_ok_iff.mp h
              cases heq
              exact ⟨holds_of_durationTerm hterm, .cons nofun (.refl _)⟩
          | count => cases h
      | literal lexeme =>
          obtain ⟨hholds, hleaves⟩ := holds_of_readQuoted h
          exact ⟨hholds, .cons nofun hleaves⟩
      | _ => cases measure <;> cases h

/-- No blank is in a word. -/
theorem not_isBlank {c : Char} (h : isLabelChar c) : isBlank c = false := by
  rw [← Bool.not_eq_true]
  intro hblank
  rw [(plain_of_isBlank hblank).2.2.2.1] at h
  cases h

theorem isBare_of_lexical {value datatype : String} (h : (Token.word value).Lexical) :
    (Term.literal (.typed value datatype)).IsBare := by
  rintro _ ⟨⟩
  rw [Literal.value_typed]
  refine ⟨trim_eq_self fun c hc => not_isBlank (h.word_chars c hc), ?_⟩
  cases h with
  | fractional h =>
      rw [String.toList_ofList, h.first]
      decide
  | word h =>
      intro hsign
      have hfirst := h.first
      rw [String.toList_ofList] at hsign
      rw [hsign] at hfirst
      cases hfirst

theorem Measure.Fits.isBare (h : Measure.duration.Fits term) : term.IsBare := by
  cases h with
  | «variable» => exact nofun
  | duration hlexical => exact isBare_of_lexical hlexical

/-- Only a quoted value can have blanks around it or a minus sign. -/
theorem isBare_of_readSlot {token : Token}
    (h : readSlot prefixes .duration slot (token :: ts) = .ok (term, rest)) (htoken : token.Lexical)
    (hquoted : ∀ lexeme, token ≠ .literal lexeme) : term.IsBare := by
  cases token with
  | «variable» name =>
      obtain ⟨_, hterm, heq⟩ := bind_eq_ok_iff.mp h
      cases heq
      obtain ⟨v, rfl, rfl⟩ := Term.ofVariable_eq_ok hterm
      exact nofun
  | number digits =>
      obtain ⟨_, hterm, heq⟩ := bind_eq_ok_iff.mp h
      cases heq
      exact (fits_of_millisTerm hterm).isBare
  | word word =>
      obtain ⟨_, hterm, heq⟩ := bind_eq_ok_iff.mp h
      cases heq
      obtain ⟨-, rfl⟩ := durationTerm_eq_ok_iff.mp hterm
      exact isBare_of_lexical htoken
  | literal lexeme => exact absurd rfl (hquoted lexeme)
  | _ => cases h

end QueryReader

/-! ### Frames -/

/-- What the slots of a frame measure. -/
def Frame.measure : Frame → QueryReader.Measure
  | logical _ => .duration
  | past _ _ => .duration
  | physical _ => .count

/-- The tokens of a frame. -/
def Frame.tokens (prefixes : PrefixMapping) : Frame → List Token
  | logical range => [.word "RANGE", range.slotToken prefixes .duration]
  | past start stop =>
    [.word "FROM", .word "NOW", .punct "-", start.slotToken prefixes .duration,
      .word "TO", .word "NOW", .punct "-", stop.slotToken prefixes .duration]
  | physical items => [.word "ITEM", items.slotToken prefixes .count]

/-- The tokens of a step. -/
def Window.stepTokens (prefixes : PrefixMapping) (window : Window) : List Token :=
  window.step.toList.flatMap fun step =>
    [.word "STEP", step.slotToken prefixes window.frame.measure]

namespace QueryReader

variable {prefixes : PrefixMapping} {measure : Measure} {slot : String} {term : Term}
  {ts rest : List Token} {frame : Frame} {step : Option Term}

theorem holds_of_readStep (h : readStep prefixes measure ts = .ok (step, rest))
    (hts : ∀ t ∈ ts, t.Lexical) :
    (∀ term ∈ step.toList, measure.Holds term) ∧ Leaves ts rest := by
  cases ts with
  | nil =>
      cases h
      exact ⟨by simp, .refl _⟩
  | cons token ts =>
      unfold readStep at h
      dsimp only at h
      split at h
      · next hword =>
        obtain ⟨⟨term, others⟩, hslot, heq⟩ := bind_eq_ok_iff.mp h
        cases heq
        obtain ⟨hholds, hleaves⟩ := holds_of_readSlot hslot fun t ht =>
          hts t (List.mem_cons_of_mem _ ht)
        refine ⟨?_, .cons (isPunct_of_isWord hword) hleaves⟩
        simpa using hholds
      · cases h
        exact ⟨by simp, .refl _⟩

theorem holds_of_readPast (h : readPast prefixes slot ts = .ok (term, rest))
    (hts : ∀ t ∈ ts, t.Lexical) : Measure.duration.Holds term ∧ Leaves ts rest := by
  unfold readPast at h
  split at h
  · next word others =>
    split at h
    · split at h
      · next digits others =>
        split at h
        · obtain ⟨_, hterm, heq⟩ := bind_eq_ok_iff.mp h
          cases heq
          exact ⟨(fits_of_millisTerm hterm).holds, .cons nofun (.cons nofun (.refl _))⟩
        · cases h
      · next token others _ =>
        split at h
        · next hhyphen =>
          rw [eq_punct_of_isPunct hhyphen]
          obtain ⟨hholds, hleaves⟩ := holds_of_readSlot h fun t ht =>
            hts t (List.mem_cons_of_mem _ (List.mem_cons_of_mem _ ht))
          exact ⟨hholds, .cons nofun (.cons (by decide) hleaves)⟩
        · cases h
      · cases h
    · cases h
  · exact holds_of_readSlot h hts
  · cases h

theorem leaves_of_expectWord {word : String} (h : expectWord word ts = .ok rest) :
    Leaves ts rest := by
  unfold expectWord at h
  split at h
  · split at h
    · next hword =>
      cases h
      exact .cons (isPunct_of_isWord hword) (.refl _)
    · cases h
  · cases h

/-- What a frame and its step are read from. A keyword tells the kind of the frame, and behind it the
slots are read one after another. -/
inductive FrameReading (prefixes : PrefixMapping) (step : Option Term) (rest : List Token) :
    List Token → Frame → Prop
  | logical {keyword : Token} {range : Term} {ts behind : List Token} (hword : keyword.isWord "RANGE")
      (hrange : readSlot prefixes .duration "RANGE" ts = .ok (range, behind))
      (hstep : readStep prefixes .duration behind = .ok (step, rest)) :
      FrameReading prefixes step rest (keyword :: ts) (.logical range)
  | physical {keyword : Token} {items : Term} {ts behind : List Token} (hword : keyword.isWord "ITEM")
      (hitems : readSlot prefixes .count "ITEM" ts = .ok (items, behind))
      (hstep : readStep prefixes .count behind = .ok (step, rest)) :
      FrameReading prefixes step rest (keyword :: ts) (.physical items)
  | past {keyword : Token} {start stop : Term} {ts afterStart afterTo afterStop : List Token}
      (hword : keyword.isWord "FROM")
      (hstart : readPast prefixes "FROM" ts = .ok (start, afterStart))
      (hto : expectWord "TO" afterStart = .ok afterTo)
      (hstop : readPast prefixes "TO" afterTo = .ok (stop, afterStop))
      (hstep : readStep prefixes .duration afterStop = .ok (step, rest)) :
      FrameReading prefixes step rest (keyword :: ts) (.past start stop)

theorem readFrame_eq_ok_iff : readFrame prefixes ts = .ok (frame, step, rest) ↔
    FrameReading prefixes step rest ts frame := by
  constructor
  · intro h
    cases ts with
    | nil => cases h
    | cons keyword ts =>
        unfold readFrame at h
        dsimp only at h
        split at h
        · next hword =>
          obtain ⟨_, hrange, h⟩ := bind_eq_ok_iff.mp h
          obtain ⟨_, hstep, heq⟩ := bind_eq_ok_iff.mp h
          cases heq
          exact .logical hword hrange hstep
        · split at h
          · next hword =>
            obtain ⟨_, hitems, h⟩ := bind_eq_ok_iff.mp h
            obtain ⟨_, hstep, heq⟩ := bind_eq_ok_iff.mp h
            cases heq
            exact .physical hword hitems hstep
          · split at h
            · next hword =>
              obtain ⟨_, hstart, h⟩ := bind_eq_ok_iff.mp h
              obtain ⟨_, hto, h⟩ := bind_eq_ok_iff.mp h
              obtain ⟨_, hstop, h⟩ := bind_eq_ok_iff.mp h
              obtain ⟨_, hstep, heq⟩ := bind_eq_ok_iff.mp h
              cases heq
              exact .past hword hstart hto hstop hstep
            · cases h
  · intro h
    cases h with
    | logical hword hrange hstep =>
        rw [readFrame, if_pos hword]
        exact bind_eq_ok_iff.mpr ⟨_, hrange, bind_eq_ok_iff.mpr ⟨_, hstep, rfl⟩⟩
    | physical hword hitems hstep =>
        rw [readFrame, isWord_eq hword, isWord_eq hword]
        exact bind_eq_ok_iff.mpr ⟨_, hitems, bind_eq_ok_iff.mpr ⟨_, hstep, rfl⟩⟩
    | past hword hstart hto hstop hstep =>
        rw [readFrame, isWord_eq hword, isWord_eq hword, isWord_eq hword]
        exact bind_eq_ok_iff.mpr ⟨_, hstart, bind_eq_ok_iff.mpr ⟨_, hto,
          bind_eq_ok_iff.mpr ⟨_, hstop, bind_eq_ok_iff.mpr ⟨_, hstep, rfl⟩⟩⟩⟩

theorem holds_of_readFrame (h : readFrame prefixes ts = .ok (frame, step, rest))
    (hts : ∀ t ∈ ts, t.Lexical) :
    (∀ term ∈ frame.terms ++ step.toList, frame.measure.Holds term) ∧ Leaves ts rest := by
  cases readFrame_eq_ok_iff.mp h with
  | logical hword hrange hstep =>
      obtain ⟨-, htail⟩ := List.forall_mem_cons.mp hts
      obtain ⟨hholds, hleaves⟩ := holds_of_readSlot hrange htail
      obtain ⟨hsteps, hleavesstep⟩ := holds_of_readStep hstep (hleaves.lexical htail)
      exact ⟨List.forall_mem_cons.mpr ⟨hholds, hsteps⟩,
        .cons (isPunct_of_isWord hword) (hleaves.trans hleavesstep)⟩
  | physical hword hitems hstep =>
      obtain ⟨-, htail⟩ := List.forall_mem_cons.mp hts
      obtain ⟨hholds, hleaves⟩ := holds_of_readSlot hitems htail
      obtain ⟨hsteps, hleavesstep⟩ := holds_of_readStep hstep (hleaves.lexical htail)
      exact ⟨List.forall_mem_cons.mpr ⟨hholds, hsteps⟩,
        .cons (isPunct_of_isWord hword) (hleaves.trans hleavesstep)⟩
  | past hword hstart hto hstop hstep =>
      obtain ⟨-, htail⟩ := List.forall_mem_cons.mp hts
      obtain ⟨hstartholds, hleaves⟩ := holds_of_readPast hstart htail
      have hleavesto := hleaves.trans (leaves_of_expectWord hto)
      obtain ⟨hstopholds, hleavesstop⟩ := holds_of_readPast hstop (hleavesto.lexical htail)
      have hleavesend := hleavesto.trans hleavesstop
      obtain ⟨hsteps, hleavesstep⟩ := holds_of_readStep hstep (hleavesend.lexical htail)
      exact ⟨List.forall_mem_cons.mpr ⟨hstartholds, List.forall_mem_cons.mpr ⟨hstopholds, hsteps⟩⟩,
        .cons (isPunct_of_isWord hword) (hleavesend.trans hleavesstep)⟩

theorem readStep_of_fits (prefixes : PrefixMapping) (h : ∀ term ∈ step.toList, measure.Fits term)
    (rest : List Token) : readStep prefixes measure ((step.toList.flatMap fun step =>
      [.word "STEP", step.slotToken prefixes measure]) ++ .punct "]" :: rest) =
        .ok (step, .punct "]" :: rest) := by
  cases step with
  | none => rfl
  | some term =>
      have hfits : measure.Fits term := h term (by simp)
      exact bind_eq_ok_iff.mpr ⟨_, hfits.readSlot "STEP" _, rfl⟩

theorem readPast_of_fits (h : Measure.duration.Fits term) (slot : String) (rest : List Token) :
    readPast prefixes slot (.word "NOW" :: .punct "-" :: term.slotToken prefixes .duration :: rest) =
      .ok (term, rest) :=
  h.readSlot slot rest

/-- A frame and its step are read from their tokens. -/
theorem readFrame_of_fits (prefixes : PrefixMapping)
    (h : ∀ term ∈ frame.terms ++ step.toList, frame.measure.Fits term) (rest : List Token) :
    readFrame prefixes (frame.tokens prefixes ++ ((step.toList.flatMap fun step =>
      [.word "STEP", step.slotToken prefixes frame.measure]) ++ .punct "]" :: rest)) =
        .ok (frame, step, .punct "]" :: rest) := by
  obtain ⟨hframe, hstep⟩ := List.forall_mem_append.mp h
  have hreadstep := readStep_of_fits prefixes hstep rest
  apply readFrame_eq_ok_iff.mpr
  cases frame with
  | logical range =>
      have hrange := hframe range List.mem_cons_self
      exact .logical rfl (hrange.readSlot "RANGE" _) hreadstep
  | past start stop =>
      obtain ⟨hstart, hstop⟩ := List.forall_mem_cons.mp hframe
      have hstop := hstop stop List.mem_cons_self
      exact .past rfl (readPast_of_fits hstart "FROM" _) rfl (readPast_of_fits hstop "TO" _) hreadstep
  | physical items =>
      have hitems := hframe items List.mem_cons_self
      exact .physical rfl (hitems.readSlot "ITEM" _) hreadstep

end QueryReader

/-! ### Declarations -/

/-- The tokens of the declaration of a window, behind `FROM`. -/
def Window.tokens (prefixes : PrefixMapping) (window : Window) : List Token :=
  .word "NAMED" :: .word "WINDOW" :: window.id.nameToken prefixes :: .word "ON" ::
    window.stream.nameToken prefixes :: .punct "[" ::
    (window.frame.tokens prefixes ++ (window.stepTokens prefixes ++ [.punct "]"]))

/-- A window with durations that are written without blanks and without a minus sign. -/
def Window.IsBare (window : Window) : Prop :=
  window.frame.measure = .duration →
    ∀ term ∈ window.frame.terms ++ window.step.toList, term.IsBare

/-- A window that can be declared in query text. -/
structure Window.Fits (prefixes : PrefixMapping) (window : Window) : Prop where
  id : window.id.Names prefixes
  stream : window.stream.Names prefixes
  slots : ∀ term ∈ window.frame.terms ++ window.step.toList, window.frame.measure.Fits term

/-- What is known of a window that was read. -/
structure Window.Reading (prefixes : PrefixMapping) (window : Window) : Prop where
  id : window.id.Names prefixes
  stream : window.stream.Names prefixes
  slots : ∀ term ∈ window.frame.terms ++ window.step.toList, window.frame.measure.Holds term

theorem Window.Reading.fits {prefixes : PrefixMapping} {window : Window} (h : window.Reading prefixes)
    (hbare : window.IsBare) : window.Fits prefixes :=
  ⟨h.id, h.stream, fun term hterm => (h.slots term hterm).fits fun hmeasure => hbare hmeasure term hterm⟩

namespace QueryReader

variable {prefixes : PrefixMapping} {ts rest : List Token} {window : Window} {term : Term}

theorem names_of_readName {expected : String} (hprefixes : prefixes.Declared)
    (h : readName prefixes expected ts = .ok (term, rest)) (hts : ∀ t ∈ ts, t.Lexical) :
    term.Names prefixes ∧ Leaves ts rest := by
  cases ts with
  | nil => cases h
  | cons token ts =>
      obtain ⟨_, hterm, heq⟩ := bind_eq_ok_iff.mp h
      cases heq
      refine ⟨names_of_resolve hprefixes (hts token List.mem_cons_self) hterm, .cons ?_ (.refl _)⟩
      rcases resolve_cases hterm with ⟨i, -, rfl⟩ | ⟨i, full, -, rfl, -⟩ | ⟨v, -, rfl⟩ <;> exact nofun

theorem leaves_skipWord (word : String) (ts : List Token) : Leaves ts (skipWord word ts) := by
  unfold skipWord
  split
  · split
    · next hword => exact .cons (isPunct_of_isWord hword) (.refl _)
    · exact .refl _
  · exact .refl _

theorem eq_of_expectPunct {mark : String} (h : expectPunct mark ts = .ok rest) :
    ts = .punct mark :: rest := by
  unfold expectPunct at h
  split at h
  · split at h
    · next hmark =>
      cases h
      rw [eq_punct_of_isPunct hmark]
    · cases h
  · cases h

/-- The parts of a declaration are read one after another. -/
theorem readWindow_eq_ok_iff : readWindow prefixes ts = .ok (window, rest) ↔
    ∃ afterId afterOn afterStream afterFrame,
      readName prefixes "window name" ts = .ok (window.id, afterId) ∧
        expectWord "ON" afterId = .ok afterOn ∧
        readName prefixes "stream name" (skipWord "STREAM" afterOn) =
          .ok (window.stream, .punct "[" :: afterStream) ∧
        readFrame prefixes afterStream = .ok (window.frame, window.step, afterFrame) ∧
        afterFrame = .punct "]" :: rest := by
  constructor
  · intro h
    obtain ⟨⟨id, afterId⟩, hid, h⟩ := bind_eq_ok_iff.mp h
    obtain ⟨afterOn, hon, h⟩ := bind_eq_ok_iff.mp h
    obtain ⟨⟨stream, afterStream⟩, hstream, h⟩ := bind_eq_ok_iff.mp h
    obtain ⟨afterOpening, hopening, h⟩ := bind_eq_ok_iff.mp h
    obtain ⟨⟨frame, step, afterFrame⟩, hframe, h⟩ := bind_eq_ok_iff.mp h
    obtain ⟨afterClosing, hclosing, heq⟩ := bind_eq_ok_iff.mp h
    cases heq
    rw [eq_of_expectPunct hopening] at hstream
    exact ⟨afterId, afterOn, afterOpening, afterFrame, hid, hon, hstream, hframe,
      eq_of_expectPunct hclosing⟩
  · rintro ⟨afterId, afterOn, afterStream, _, hid, hon, hstream, hframe, rfl⟩
    refine bind_eq_ok_iff.mpr ⟨_, hid, bind_eq_ok_iff.mpr ⟨_, hon, ?_⟩⟩
    refine bind_eq_ok_iff.mpr ⟨_, hstream, bind_eq_ok_iff.mpr ⟨_, rfl, ?_⟩⟩
    exact bind_eq_ok_iff.mpr ⟨_, hframe, bind_eq_ok_iff.mpr ⟨_, rfl, rfl⟩⟩

/-- The declaration of a window that is read ends with the first closing bracket. -/
theorem reading_of_readWindow (hprefixes : prefixes.Declared)
    (h : readWindow prefixes ts = .ok (window, rest)) (hts : ∀ t ∈ ts, t.Lexical) :
    window.Reading prefixes ∧ Leaves ts (.punct "]" :: rest) := by
  obtain ⟨afterId, afterOn, afterStream, _, hid, hon, hstream, hframe, rfl⟩ :=
    readWindow_eq_ok_iff.mp h
  obtain ⟨hidnames, hleavesid⟩ := names_of_readName hprefixes hid hts
  have hleaveson := hleavesid.trans ((leaves_of_expectWord hon).trans (leaves_skipWord "STREAM" _))
  obtain ⟨hstreamnames, hleavesstream⟩ :=
    names_of_readName hprefixes hstream (hleaveson.lexical hts)
  have hleavesopening := (hleaveson.trans hleavesstream).trans (.cons (by decide) (.refl afterStream))
  obtain ⟨hholds, hleavesframe⟩ := holds_of_readFrame hframe (hleavesopening.lexical hts)
  exact ⟨⟨hidnames, hstreamnames, hholds⟩, hleavesopening.trans hleavesframe⟩

theorem skipWord_nameToken (word : String) (term : Term) (rest : List Token) :
    skipWord word (term.nameToken prefixes :: rest) = term.nameToken prefixes :: rest := by
  rw [skipWord, Term.isWord_nameToken]
  rfl

theorem readName_nameToken (h : term.Names prefixes) (expected : String) (rest : List Token) :
    readName prefixes expected (term.nameToken prefixes :: rest) = .ok (term, rest) :=
  bind_eq_ok_iff.mpr ⟨_, h.resolves, rfl⟩

/-- A window is read from the tokens of its declaration. -/
theorem readFrom_of_fits (h : window.Fits prefixes) (rest : List Token) :
    readFrom prefixes (window.tokens prefixes ++ rest) = .ok (.inr window, rest) := by
  have hframe := readFrame_of_fits prefixes h.slots rest
  have hstream : ∀ others, readName prefixes "stream name" (skipWord "STREAM"
      (window.stream.nameToken prefixes :: others)) = .ok (window.stream, others) := by
    intro others
    rw [skipWord_nameToken]
    exact readName_nameToken h.stream _ _
  simp only [Window.tokens, List.cons_append, List.append_assoc, List.nil_append]
  refine bind_eq_ok_iff.mpr ⟨(window, rest), ?_, rfl⟩
  exact readWindow_eq_ok_iff.mpr ⟨_, _, _, _, readName_nameToken h.id _ _, rfl, hstream _, hframe, rfl⟩

end QueryReader

/-! ### Writing a declaration -/

section Writing

variable {prefixes : PrefixMapping} {window : Window} {term : Term}

theorem Term.Names.slotText_eq (h : term.Names prefixes) :
    term.slotText prefixes = (term.nameToken prefixes).text := by
  rw [Term.text_nameToken]
  cases term with
  | literal l => cases h.resolves
  | _ => rfl

theorem Term.Names.reads (h : term.Names prefixes) :
    Reads (term.slotText prefixes).toList [term.nameToken prefixes] := by
  rw [h.slotText_eq]
  exact .token h.lexical

theorem QueryReader.Measure.Fits.reads {measure : QueryReader.Measure} (h : measure.Fits term)
    (prefixes : PrefixMapping) :
    Reads (term.slotText prefixes).toList [term.slotToken prefixes measure] := by
  rw [← Term.text_slotToken prefixes measure]
  exact .token h.lexical

theorem QueryReader.Measure.Fits.reads_past (h : QueryReader.Measure.duration.Fits term)
    (prefixes : PrefixMapping) : Reads ("NOW-".toList ++ (term.slotText prefixes).toList)
      [.word "NOW", .punct "-", term.slotToken prefixes .duration] := by
  rw [← Term.text_slotToken prefixes .duration]
  exact .past h.lexical h.fusesBehindHyphen

/-- A frame in a declaration. -/
def Frame.text (prefixes : PrefixMapping) : Frame → String
  | logical range => "RANGE " ++ range.slotText prefixes
  | past start stop =>
    "FROM NOW-" ++ start.slotText prefixes ++ " TO NOW-" ++ stop.slotText prefixes
  | physical items => "ITEM " ++ items.slotText prefixes

/-- A step in a declaration. -/
def Window.stepText (prefixes : PrefixMapping) (window : Window) : String :=
  match window.step with
  | some step => " STEP " ++ step.slotText prefixes
  | none => ""

theorem Window.clause_eq (prefixes : PrefixMapping) (window : Window) :
    window.clause prefixes = "FROM NAMED WINDOW " ++ window.id.slotText prefixes ++ " ON " ++
      window.stream.slotText prefixes ++ " [" ++ window.frame.text prefixes ++
        window.stepText prefixes ++ "]" := by
  unfold clause Frame.text stepText
  cases window.frame <;> rfl

theorem Frame.reads_text {frame : Frame} (h : ∀ term ∈ frame.terms, frame.measure.Fits term)
    (prefixes : PrefixMapping) : Reads (frame.text prefixes).toList (frame.tokens prefixes) := by
  cases frame with
  | logical range =>
      have hrange : QueryReader.Measure.duration.Fits range := h range List.mem_cons_self
      simpa [text, tokens, String.toList_append] using
        Reads.keyword "RANGE" (by decide) (hrange.reads prefixes)
  | past start stop =>
      obtain ⟨hstart, hstop⟩ := List.forall_mem_cons.mp h
      have hstop := hstop stop List.mem_cons_self
      simpa [text, tokens, String.toList_append] using
        Reads.keyword "FROM" (by decide) ((hstart.reads_past prefixes).append
          (.keyword "TO" (by decide) (hstop.reads_past prefixes)))
  | physical items =>
      have hitems : QueryReader.Measure.count.Fits items := h items List.mem_cons_self
      simpa [text, tokens, String.toList_append] using
        Reads.keyword "ITEM" (by decide) (hitems.reads prefixes)

theorem Window.reads_step {cs : List Char} {ts : List Token} (hcs : Reads cs ts)
    (h : ∀ term ∈ window.step.toList, window.frame.measure.Fits term) (prefixes : PrefixMapping) :
    Reads (cs ++ (window.stepText prefixes).toList) (ts ++ window.stepTokens prefixes) := by
  unfold stepText stepTokens
  cases hstep : window.step with
  | none => simpa using hcs
  | some step =>
      have hfits := h step (by simp [hstep])
      simpa [String.toList_append] using
        hcs.append (Reads.keyword "STEP" (by decide) (hfits.reads prefixes))

/-- The declaration of a window is written with its tokens. -/
theorem Window.reads_clause (h : window.Fits prefixes) :
    Reads (window.clause prefixes).toList (.word "FROM" :: window.tokens prefixes) := by
  obtain ⟨hframe, hstep⟩ := List.forall_mem_append.mp h.slots
  have hslots := (reads_step (Frame.reads_text hframe prefixes) hstep prefixes).bracketed
  have hnames := h.id.reads.append (.keyword "ON" (by decide) (h.stream.reads.append hslots))
  have hclause := Reads.keyword "FROM" (by decide)
    (.keyword "NAMED" (by decide) (.keyword "WINDOW" (by decide) hnames))
  rw [clause_eq]
  simpa [tokens, String.toList_append] using hclause

end Writing

end StreamQuery
