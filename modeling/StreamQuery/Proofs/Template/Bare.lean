import StreamQuery.Proofs.Template.Clean
import StreamQuery.Proofs.Template.Places

/-! # Bare values

Cleaning is an exchange as well: a literal with its datatype gives way to its value as a single token.
Where the value is a duration or a count, a query is read with the token as with the literal.
-/

namespace StreamQuery

open Text Lexeme Token QueryReader

/-! ### Tokens of values -/

/-- A token that stands for a value without its quotes. -/
inductive Token.IsBare : String → Token → Prop
  | duration {value : String} (h : (DurationFields.ofLexical? value).isSome) : IsBare value (.word value)
  | count {value : String} {n : Nat} (h : readCount? value = some n) : IsBare value (.number value)

namespace Token.IsBare

variable {value : String} {token : Token}

theorem isInert (h : token.IsBare value) : token.IsInert := by
  cases h with
  | duration h =>
      obtain ⟨-, c, hc, hdigit⟩ := DurationFields.mem_of_ofLexical? h
      exact .of_digit hc hdigit
  | count h => exact .of_ne nofun nofun

theorem ne_datatypeMark (h : token.IsBare value) : token ≠ .datatypeMark := by
  cases h <;> nofun

/-- What is read from a value in quotes is read from its token. -/
theorem readSlot {prefixes : PrefixMapping} {measure : Measure} {slot : String} {term : Term}
    (h : token.IsBare value) (hvalue : readUnquoted measure slot value = .ok term) (rest : List Token) :
    QueryReader.readSlot prefixes measure slot (token :: rest) = .ok (term, rest) := by
  cases measure with
  | duration =>
      cases h with
      | duration h => exact bind_eq_ok_iff.mpr ⟨_, hvalue, rfl⟩
      | count h =>
          obtain ⟨hvalid, -⟩ := durationTerm_eq_ok_iff.mp hvalue
          rw [DurationFields.ofLexical?_of_readCount? h] at hvalid
          cases hvalid
  | count =>
      cases h with
      | duration h =>
          obtain ⟨n, hcount, -⟩ := countTerm_eq_ok_iff.mp hvalue
          rw [DurationFields.ofLexical?_of_readCount? hcount] at h
          cases h
      | count h => exact bind_eq_ok_iff.mpr ⟨_, hvalue, rfl⟩

end Token.IsBare

/-! ### Cleaning as an exchange -/

/-- Tokens in which some literals with a datatype have given way to their values, but none directly
behind the word `WINDOW`. -/
inductive Bared : (behindWindow : Bool) → List Token → List Token → Prop
  | nil {behindWindow : Bool} : Bared behindWindow [] []
  | keep {behindWindow : Bool} {t : Token} {ts us : List Token} (h : Bared (t.isWord "WINDOW") ts us) :
      Bared behindWindow (t :: ts) (t :: us)
  | value {value : List Char} {datatype : String} {u : Token} {ts us : List Token}
      (hquote : '"' ∉ value) (hu : u.IsBare (String.ofList value)) (h : Bared false ts us) :
      Bared false (.literal (String.ofList ('"' :: value ++ ['"'])) :: .datatypeMark :: .iri datatype :: ts)
        (u :: us)

namespace Bared

variable {prefixes : PrefixMapping} {behindWindow : Bool} {t : Token} {ts us : List Token}

theorem tail (h : Bared behindWindow (t :: ts) us) (ht : ∀ lexeme, t ≠ .literal lexeme) :
    ∃ us', us = t :: us' ∧ Bared (t.isWord "WINDOW") ts us' := by
  cases h with
  | keep h => exact ⟨_, rfl, h⟩
  | value => exact absurd rfl (ht _)

theorem tail_of_isWord {word : String} (h : Bared behindWindow (t :: ts) us) (ht : t.isWord word) :
    ∃ us', us = t :: us' ∧ Bared (t.isWord "WINDOW") ts us' := by
  refine h.tail ?_
  rintro lexeme rfl
  cases ht

theorem isExchange : IsExchange fun ts us => ∃ behindWindow, Bared behindWindow ts us where
  nil := by
    rintro us ⟨behindWindow, h⟩
    cases h
    rfl
  cons := by
    rintro t ts us ⟨behindWindow, h⟩
    cases h with
    | keep h => exact .inl ⟨_, rfl, _, h⟩
    | @value value datatype u ts us hquote hu h =>
        refine .inr (@Exchanged.intro _ _ u [.datatypeMark, .iri datatype] [] ts us trivial ?_ ?_
          hu.ne_datatypeMark ⟨_, h⟩)
        · rintro t ht
          rcases List.mem_pair.mp ht with rfl | rfl <;> exact .of_ne nofun nofun
        · exact List.forall_mem_singleton.mpr hu.isInert

/-- A typed value that is read in a slot is read there without its quotes. -/
theorem readSlot_value {measure : Measure} {slot datatype : String} {value : List Char} {u : Token}
    {term : Term} {rest : List Token} (hquote : '"' ∉ value) (hu : u.IsBare (String.ofList value))
    (h : readSlot prefixes measure slot
      (.literal (String.ofList ('"' :: value ++ ['"'])) :: .datatypeMark :: .iri datatype :: ts) =
        .ok (term, rest)) :
    rest = ts ∧ ∀ us, readSlot prefixes measure slot (u :: us) = .ok (term, us) := by
  rw [readSlot_literal] at h
  obtain ⟨text, hdatatype, -, hterm⟩ := readQuoted_eq_ok_iff.mp h
  obtain ⟨_, -, heq⟩ := bind_eq_ok_iff.mp hdatatype
  cases heq
  rw [unquoted_quotes hquote] at hterm
  exact ⟨rfl, hu.readSlot hterm⟩

theorem exchange (prefixes : PrefixMapping) :
    Exchange prefixes Eq (fun _ => Eq) fun ts us => ∃ behindWindow, Bared behindWindow ts us where
  toIsExchange := isExchange
  name := by
    rintro t ts us term _ ⟨behindWindow, h⟩ hterm rfl
    cases h with
    | keep h => exact ⟨t, _, rfl, ⟨_, h⟩, hterm⟩
    | value => cases hterm
  slot := by
    rintro measure slot ts us term _ rest hslot - ⟨behindWindow, h⟩ rfl
    cases h with
    | nil => cases hslot
    | keep h => exact isExchange.readSlot hslot ⟨_, h⟩
    | value hquote hu h =>
        obtain ⟨rfl, hread⟩ := readSlot_value hquote hu hslot
        exact ⟨_, hread _, _, h⟩
  fixed h := h.symm
  alone := by
    rintro keyword name ts us term _ hkeyword ⟨behindWindow, h⟩ - rfl
    obtain ⟨_, rfl, hname⟩ := hkeyword.elim h.tail_of_isWord h.tail_of_isWord
    obtain ⟨us, rfl, hrest⟩ := hname.tail nofun
    exact ⟨rfl, us, rfl, _, hrest⟩
  header := by
    rintro keyword t ts us hkeyword ⟨behindWindow, h⟩
    obtain ⟨_, rfl, hname⟩ := h.tail_of_isWord hkeyword
    rw [hkeyword] at hname
    cases hname with
    | keep hrest => exact ⟨t, [], _, rfl, ⟨_, hrest⟩, nofun⟩

end Bared

namespace WindowSlot

variable {holds : List Token → TypedSlot → Prop} {slot : TypedSlot}

/-- A slot whose value can stand there without its quotes: a duration without a sign, or a count that
is no distance from a point in the past. -/
def TypedSlot.IsReadable (slot : TypedSlot) : Prop :=
  (DurationFields.ofLexical? (String.ofList slot.value)).isSome ∧ slot.value.head? = some 'P' ∨
    slot.past = [] ∧ (readCount? (String.ofList slot.value)).isSome

/-- A value that is readable is one token. -/
theorem TypedSlot.Valid.exists_token (h : slot.Valid) (hreadable : slot.IsReadable) :
    ∃ token : Token, token.IsBare (String.ofList slot.value) ∧ tokens? slot.value = some [token] := by
  have htrim : trim slot.value = slot.value :=
    trim_eq_self fun c hc => not_isBlank_of_isBareChar (h.value c hc)
  have hself : ∀ {token : Token}, token.Lexical → token.text = String.ofList slot.value →
      tokens? slot.value = some [token] := by
    intro token hlexical htext
    have htokens := hlexical.tokens?_text
    rwa [htext, String.toList_ofList] at htokens
  rcases hreadable with ⟨hvalid, hhead⟩ | ⟨-, hcount⟩
  · refine ⟨_, .duration hvalid, hself (.duration hvalid ?_ ?_) rfl⟩
    · rw [String.toList_ofList, htrim]
    · rw [String.toList_ofList, hhead]
      decide
  · obtain ⟨n, hn⟩ := Option.isSome_iff_exists.mp hcount
    exact ⟨_, .count hn, hself (lexical_of_readCount? hn) rfl⟩

/-- Behind the keyword of a slot, the value without its quotes is one token. -/
theorem TypedSlot.Valid.tokens?_bare (h : slot.Valid) {past : List Token}
    (hpast : PastTokens slot.past past) (hreadable : slot.IsReadable) :
    ∃ token : Token, token.IsBare (String.ofList slot.value) ∧
      tokens? (slot.past ++ slot.value) = some (past ++ [token]) := by
  obtain ⟨token, hbare, hvalue⟩ := h.exists_token hreadable
  refine ⟨token, hbare, ?_⟩
  generalize hfront : slot.past = front at hpast
  cases hpast with
  | none => exact hvalue
  | @now now before after hletters hword hbefore hafter =>
      have hhead : slot.value.head? = some 'P' := by
        rcases hreadable with ⟨-, hhead⟩ | ⟨hnone, -⟩
        · exact hhead
        · simp [hnone] at hfront
      have hdigit : Stops Char.isDigit (after ++ slot.value) := by
        cases after with
        | nil => exact stops_of_head? hhead (by decide)
        | cons c after => exact stops_space (hafter c List.mem_cons_self) (by decide) _
      have hcolon : ((after ++ slot.value).dropWhile isLabelChar).head? ≠ some ':' := by
        intro hcolon
        have hmem := (List.dropWhile_suffix isLabelChar).subset (List.mem_of_mem_head? hcolon)
        rcases List.mem_append.mp hmem with hmem | hmem
        · exact absurd (hafter ':' hmem) (by decide)
        · exact absurd (h.value ':' hmem) (by decide)
      have hne : now ≠ [] := by
        rintro rfl
        cases hword.first
      have hnow := first?_beforeHyphen hword (fun c hc => isBlank_of_isSpace (hbefore c hc)) hcolon
      calc tokens? (now ++ (before ++ '-' :: after) ++ slot.value)
          = tokens? (now ++ (before ++ (['-'] ++ (after ++ slot.value)))) := by simp
        _ = (tokens? (['-'] ++ (after ++ slot.value))).map (.word (String.ofList now) :: ·) := by
            rw [tokens?_lexeme hnow hne, tokens?_spaces_append hbefore]
        _ = some [.word (String.ofList now), .punct "-", token] := by
            rw [tokens?_lexeme (first?_hyphen hdigit) (by simp), tokens?_spaces_append hafter, hvalue]
            rfl

theorem TypedSlot.Valid.isWord_keyword (h : slot.Valid) :
    (Token.word (String.ofList slot.keyword)).isWord "WINDOW" = false := by
  have hall : ∀ word ∈ keywords, word.length < 6 := by decide
  have hlength := hall _ h.keyword
  rw [← Bool.not_eq_true]
  intro hsame
  have hlengths := congrArg List.length (eq_of_beq (α := List Char) hsame)
  simp at hlengths hlength
  omega

/-- Slots that are readable give way to their values. -/
theorem Cleaned.bared {ts us : List Token} (h : Cleaned holds ts us)
    (hreadable : ∀ front slot, holds front slot → slot.IsReadable) (behindWindow : Bool) :
    Bared behindWindow ts us := by
  induction h generalizing behindWindow with
  | nil => exact .nil
  | keep _ ih => exact .keep (ih (fun front => hreadable _) _)
  | @slot holds slot past value ts us datatype hslot hvalid hpast hvalue _ ih =>
      obtain ⟨token, hbare, htokens⟩ := hvalid.tokens?_bare hpast (hreadable _ slot hslot)
      obtain rfl := Option.some.inj (hvalue.symm.trans htokens)
      have hquote : '"' ∉ slot.value := fun hmem => absurd (hvalid.value '"' hmem) (by decide)
      have hrest : Bared false (slot.literal :: .datatypeMark :: .iri datatype :: ts) (token :: us) :=
        .value hquote hbare (ih (fun front => hreadable _) false)
      refine .keep ?_
      rw [hvalid.isWord_keyword]
      generalize slot.past = front at hpast
      cases hpast with
      | none => exact hrest
      | now => exact .keep (.keep hrest)

end WindowSlot

end StreamQuery
