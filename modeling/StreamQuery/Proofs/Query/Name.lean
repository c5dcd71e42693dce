import StreamQuery.Proofs.Prefixes
import StreamQuery.Query.Parser

/-! # Names in queries

What a token resolves to is written as one token, which resolves to the same term under the same
declarations.
-/

namespace StreamQuery

open Text Lexeme Token

/-- Declarations that a prologue can hold, with labels that no colon is in. -/
structure PrefixMapping.Declared (mapping : PrefixMapping) : Prop where
  plain : ∀ entry ∈ mapping.entries, IsPlainLabel entry.1
  labels : ∀ entry ∈ mapping.entries, IsLabelName entry.1
  spaces : ∀ entry ∈ mapping.entries, ∀ c ∈ entry.2.toList, isIriChar c

/-- The token that names a term. Literals name nothing. -/
def Term.nameToken (prefixes : PrefixMapping) : Term → Token
  | .iri i =>
    match prefixes.abbreviate? i.text with
    | some name => .prefixed name
    | none => .iri i.text
  | .literal l => .literal l.text
  | .variable v => .variable v.name

/-- A term that a token of query text names. -/
structure Term.Names (prefixes : PrefixMapping) (term : Term) : Prop where
  lexical : (term.nameToken prefixes).Lexical
  resolves : QueryReader.resolve prefixes (term.nameToken prefixes) = .ok term

namespace Term

variable {prefixes : PrefixMapping} {term : Term}

theorem text_nameToken (prefixes : PrefixMapping) (term : Term) :
    (term.nameToken prefixes).text = term.queryText prefixes := by
  cases term with
  | iri i =>
      dsimp only [nameToken, queryText]
      cases prefixes.abbreviate? i.text <;> rfl
  | literal l => rfl
  | «variable» v => rfl

theorem isPunct_nameToken (prefixes : PrefixMapping) (term : Term) (mark : String) :
    (term.nameToken prefixes).isPunct mark = false := by
  cases term with
  | iri i =>
      dsimp only [nameToken]
      cases prefixes.abbreviate? i.text <;> rfl
  | literal l => rfl
  | «variable» v => rfl

theorem isWord_nameToken (prefixes : PrefixMapping) (term : Term) (word : String) :
    (term.nameToken prefixes).isWord word = false := by
  cases term with
  | iri i =>
      dsimp only [nameToken]
      cases prefixes.abbreviate? i.text <;> rfl
  | literal l => rfl
  | «variable» v => rfl

theorem ofIri_eq_ok {text : String} (h : ofIri text = .ok term) :
    ∃ i : Iri, term = .iri i ∧ i.text = text := by
  unfold ofIri at h
  split at h
  · next i hi =>
    cases h
    exact ⟨i, rfl, Iri.text_of_ofString? hi⟩
  · cases h

theorem ofIri_text (i : Iri) : ofIri i.text = .ok (.iri i) := by
  rw [ofIri, Iri.ofString?_text]

theorem ofVariable_eq_ok {name : String} (h : ofVariable name = .ok term) :
    ∃ v : Variable, term = .variable v ∧ v.name = name := by
  unfold ofVariable Variable.ofString? at h
  split at h
  · next v hv =>
    cases h
    split at hv
    · cases hv
      exact ⟨_, rfl, rfl⟩
    · cases hv
  · cases h

theorem ofVariable_name (v : Variable) : ofVariable v.name = .ok (.variable v) := by
  rw [ofVariable, Variable.ofString?, dif_pos v.valid]

end Term

namespace Token.Lexical

theorem iri_chars {text : String} (h : (Token.iri text).Lexical) : ∀ c ∈ text.toList, isIriChar c := by
  cases h with
  | iri h => rwa [String.toList_ofList]

theorem of_iri_chars {text : String} (h : ∀ c ∈ text.toList, isIriChar c) :
    (Token.iri text).Lexical := by
  rw [← String.ofList_toList (s := text)]
  exact .iri h

theorem name_chars {name : String} (h : (Token.variable name).Lexical) :
    ∀ c ∈ name.toList, Lexeme.isNameChar c := by
  cases h with
  | «variable» h => rwa [String.toList_ofList]

theorem prefixed_chars {name : String} (h : (Token.prefixed name).Lexical) :
    ∀ c ∈ name.toList, isLocalChar c := by
  cases h with
  | @«prefixed» label part h _ =>
      rw [String.toList_ofList]
      simp only [List.forall_mem_append, List.forall_mem_cons]
      refine ⟨fun c hc => ?_, by decide, h.part_chars⟩
      rw [isLocalChar, h.label_chars c hc]
      rfl

end Token.Lexical

theorem isIriChar_of_not_ascii {c : Char} (h : 128 ≤ c.toNat) : isIriChar c := by
  refine isIriChar_of_space_lt (Nat.lt_of_lt_of_le (by decide) h) fun hmem => ?_
  have hall : ∀ d ∈ "<>\"\x7b\x7d|^\x60\\".toList, d.toNat < 128 := by decide
  exact absurd (hall c hmem) (Nat.not_lt.mpr h)

theorem isAlphanum_or_not_ascii {c : Char} (h : isAlphanumeric c) : c.isAlphanum ∨ 128 ≤ c.toNat := by
  by_cases hcode : 128 ≤ c.toNat
  · exact .inr hcode
  · refine .inl ?_
    simpa [isAlphanumeric, isAlphabetic, isDecimalDigit, isWordLetter, isWordDigit, hcode,
      Char.isAlphanum] using h

theorem isIriChar_of_isLocalChar {c : Char} (h : isLocalChar c) : isIriChar c := by
  simp only [isLocalChar, isLabelChar, Bool.or_eq_true, beq_iff_eq] at h
  rcases h with ((((h | rfl) | rfl) | rfl) | rfl) | rfl
  · rcases isAlphanum_or_not_ascii h with h | h
    · exact isIriChar_of_isAlphanum h
    · exact isIriChar_of_not_ascii h
  all_goals decide

theorem isIriChar_of_isNameChar {c : Char} (h : Lexeme.isNameChar c) : isIriChar c :=
  isIriChar_of_isLocalChar (by simp [isLocalChar, isLabelChar_of_isNameChar h])

namespace QueryReader

variable {prefixes : PrefixMapping} {name : Token} {term : Term}

/-- What a name stands for, by the kind of its token. -/
theorem resolve_cases (h : resolve prefixes name = .ok term) :
    (∃ i : Iri, term = .iri i ∧ name = .iri i.text) ∨
      (∃ (i : Iri) (text : String), term = .iri i ∧ name = .prefixed text ∧
        prefixes.expand? text = some i.text) ∨
      ∃ v : Variable, term = .variable v ∧ name = .variable v.name := by
  cases name with
  | iri text =>
      obtain ⟨i, rfl, rfl⟩ := Term.ofIri_eq_ok h
      exact .inl ⟨i, rfl, rfl⟩
  | «prefixed» text =>
      dsimp only [resolve] at h
      split at h
      · next full hfull =>
        obtain ⟨i, rfl, rfl⟩ := Term.ofIri_eq_ok h
        exact .inr (.inl ⟨i, text, rfl, rfl, hfull⟩)
      · cases h
  | «variable» text =>
      obtain ⟨v, rfl, rfl⟩ := Term.ofVariable_eq_ok h
      exact .inr (.inr ⟨v, rfl, rfl⟩)
  | _ => cases h

/-- The name of a term resolves to the term. -/
theorem resolve_nameToken (hplain : ∀ entry ∈ prefixes.entries, PrefixMapping.IsPlainLabel entry.1)
    (h : resolve prefixes name = .ok term) :
    resolve prefixes (term.nameToken prefixes) = .ok term := by
  have hiri : ∀ i : Iri, resolve prefixes (Term.nameToken prefixes (.iri i)) = .ok (.iri i) := by
    intro i
    dsimp only [Term.nameToken]
    split
    · next short hshort =>
      have hcolons := fun entry hentry => (hplain entry hentry).1
      rw [resolve, PrefixMapping.expand?_of_abbreviate? hshort hcolons]
      exact Term.ofIri_text i
    · exact Term.ofIri_text i
  rcases resolve_cases h with ⟨i, rfl, -⟩ | ⟨i, text, rfl, -, -⟩ | ⟨v, rfl, -⟩
  · exact hiri i
  · exact hiri i
  · exact Term.ofVariable_name v

/-- What a token of a text expands to can stand between angle brackets. -/
theorem isIriChar_of_expand? (hspaces : ∀ entry ∈ prefixes.entries, ∀ c ∈ entry.2.toList, isIriChar c)
    {text full : String} (hname : (Token.prefixed text).Lexical)
    (h : prefixes.expand? text = some full) : ∀ c ∈ full.toList, isIriChar c := by
  cases hname with
  | @«prefixed» label part hprefixed hblank =>
      have hnot : ':' ∉ label := fun hmem =>
        absurd (hprefixed.label_chars ':' hmem) (by decide)
      rw [PrefixMapping.expand?, String.toList_ofList, PrefixMapping.splitFirst_append hnot] at h
      dsimp only at h
      split at h
      · cases h
      · obtain ⟨space, hspace, rfl⟩ := Option.map_eq_some_iff.mp h
        intro c hc
        rw [String.toList_append, String.toList_ofList] at hc
        rcases List.mem_append.mp hc with hc | hc
        · exact hspaces _ (SortedMap.mem_of_get? hspace) c hc
        · exact isIriChar_of_isLocalChar (hprefixed.part_chars c hc)

/-- The name of what a token of a text resolves to is a token. -/
theorem lexical_nameToken (hprefixes : prefixes.Declared) (hname : name.Lexical)
    (h : resolve prefixes name = .ok term) : (term.nameToken prefixes).Lexical := by
  have hiri : ∀ i : Iri, (∀ c ∈ i.text.toList, isIriChar c) →
      (Term.nameToken prefixes (.iri i)).Lexical := by
    intro i hchars
    dsimp only [Term.nameToken]
    split
    · next short hshort =>
      exact PrefixMapping.lexical_of_abbreviate? hshort hprefixes.plain hprefixes.labels
    · exact .of_iri_chars hchars
  rcases resolve_cases h with ⟨i, rfl, rfl⟩ | ⟨i, text, rfl, rfl, hfull⟩ | ⟨v, rfl, rfl⟩
  · exact hiri i hname.iri_chars
  · exact hiri i (isIriChar_of_expand? hprefixes.spaces hname hfull)
  · exact hname

theorem names_of_resolve (hprefixes : prefixes.Declared) (hname : name.Lexical)
    (h : resolve prefixes name = .ok term) : term.Names prefixes :=
  ⟨lexical_nameToken hprefixes hname h, resolve_nameToken hprefixes.plain h⟩

end QueryReader

end StreamQuery
