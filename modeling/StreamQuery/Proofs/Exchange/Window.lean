import StreamQuery.Proofs.Exchange.Result

/-! # Windows with values exchanged

A declaration of a window is read as what becomes of the window, whatever its names and the values of its
slots give way to.
-/

namespace StreamQuery

open Text Lexeme Token

namespace QueryReader

/-- No mark of a datatype begins a step, nor what follows if there is no step. -/
theorem head?_of_readStep {prefixes : PrefixMapping} {measure : Measure} {step : Option Term}
    {ts rest : List Token} (h : readStep prefixes measure ts = .ok (step, rest))
    (hrest : rest.head? ≠ some .datatypeMark) : ts.head? ≠ some .datatypeMark := by
  cases ts with
  | nil => exact nofun
  | cons t ts =>
      unfold readStep at h
      dsimp only at h
      split at h
      · next hword =>
        rintro ⟨⟩
        cases hword
      · cases h
        exact hrest

theorem exists_literal_of_millisTerm {slot digits : String} {term : Term}
    (h : millisTerm slot digits = .ok term) : ∃ l, term = .literal l := by
  unfold millisTerm at h
  split at h
  · split at h
    · cases h
      exact ⟨_, rfl⟩
    · cases h
  · cases h

/-! ### Quoted values -/

/-- The datatype of the values in a slot. -/
def Measure.datatype : Measure → Iri
  | .duration => Vocabulary.xsdDuration
  | .count => Vocabulary.xsdInteger

/-- Reads a value without its quotes. -/
def readUnquoted (measure : Measure) (slot value : String) : Except ParseError Term :=
  match measure with
  | .duration => durationTerm value
  | .count => countTerm slot value

theorem readQuoted_eq (prefixes : PrefixMapping) (measure : Measure) (slot lexeme : String)
    (ts : List Token) :
    readQuoted prefixes measure slot lexeme ts = (do
      let (datatype, ts) ← readDatatype prefixes ts
      if datatype.all (· = measure.datatype.text) then
        return (← readUnquoted measure slot (unquoted lexeme), ts)
      else throw (.invalidWindowValue slot lexeme)) := by
  cases measure <;> rfl

/-- A quoted value is read if it has the datatype of its slot or none at all. -/
theorem readQuoted_eq_ok_iff {prefixes : PrefixMapping} {measure : Measure} {slot lexeme : String}
    {ts rest : List Token} {term : Term} :
    readQuoted prefixes measure slot lexeme ts = .ok (term, rest) ↔ ∃ datatype : Option String,
      readDatatype prefixes ts = .ok (datatype, rest) ∧ (∀ text ∈ datatype, text = measure.datatype.text) ∧
        readUnquoted measure slot (unquoted lexeme) = .ok term := by
  rw [readQuoted_eq]
  constructor
  · intro h
    obtain ⟨⟨datatype, others⟩, hdatatype, h⟩ := bind_eq_ok_iff.mp h
    dsimp only at h
    split at h
    · next hsame =>
      obtain ⟨_, hterm, heq⟩ := bind_eq_ok_iff.mp h
      cases heq
      exact ⟨datatype, hdatatype, by simpa [Option.all_eq_true] using hsame, hterm⟩
    · cases h
  · rintro ⟨datatype, hdatatype, hsame, hterm⟩
    refine bind_eq_ok_iff.mpr ⟨_, hdatatype, ?_⟩
    dsimp only
    rw [if_pos (by simpa [Option.all_eq_true] using hsame)]
    exact bind_eq_ok_iff.mpr ⟨_, hterm, rfl⟩

theorem readSlot_literal (prefixes : PrefixMapping) (measure : Measure) (slot lexeme : String)
    (ts : List Token) : readSlot prefixes measure slot (.literal lexeme :: ts) =
      readQuoted prefixes measure slot lexeme ts := by
  cases measure <;> rfl

theorem exists_literal_of_readUnquoted {measure : Measure} {slot value : String} {term : Term}
    (h : readUnquoted measure slot value = .ok term) : ∃ l, term = .literal l := by
  cases measure with
  | duration => exact ⟨_, (durationTerm_eq_ok_iff.mp h).2⟩
  | count =>
      obtain ⟨n, -, rfl⟩ := countTerm_eq_ok_iff.mp h
      exact ⟨_, rfl⟩

/-- Only a variable is read as a variable in a slot. -/
theorem eq_variable_of_readSlot {prefixes : PrefixMapping} {measure : Measure} {slot : String} {t : Token}
    {ts rest : List Token} {v : Variable}
    (h : readSlot prefixes measure slot (t :: ts) = .ok (.variable v, rest)) : t = .variable v.name := by
  have hne : ¬ ∃ l, Term.variable v = .literal l := nofun
  cases t with
  | «variable» name =>
      obtain ⟨term, hterm, heq⟩ := bind_eq_ok_iff.mp h
      obtain ⟨u, rfl, rfl⟩ := Term.ofVariable_eq_ok hterm
      cases heq
      rfl
  | number digits =>
      cases measure with
      | duration =>
          obtain ⟨_, hterm, heq⟩ := bind_eq_ok_iff.mp h
          cases heq
          exact absurd (exists_literal_of_millisTerm hterm) hne
      | count =>
          obtain ⟨_, hterm, heq⟩ := bind_eq_ok_iff.mp h
          cases heq
          obtain ⟨_, -, heq⟩ := countTerm_eq_ok_iff.mp hterm
          cases heq
  | word word =>
      cases measure with
      | duration =>
          obtain ⟨_, hterm, heq⟩ := bind_eq_ok_iff.mp h
          cases heq
          cases (durationTerm_eq_ok_iff.mp hterm).2
      | count => cases h
  | literal lexeme =>
      rw [readSlot_literal] at h
      obtain ⟨_, -, -, hterm⟩ := readQuoted_eq_ok_iff.mp h
      exact absurd (exists_literal_of_readUnquoted hterm) hne
  | _ => cases measure <;> cases h

/-- Without a mark there is no datatype. -/
theorem readDatatype_of_ne {prefixes : PrefixMapping} {ts : List Token}
    (h : ts.head? ≠ some .datatypeMark) : readDatatype prefixes ts = .ok (none, ts) := by
  unfold readDatatype
  split
  · exact absurd rfl h
  · exact absurd rfl h
  · rfl

theorem readDatatype_iri (prefixes : PrefixMapping) (i : Iri) (ts : List Token) :
    readDatatype prefixes (.datatypeMark :: .iri i.text :: ts) = .ok (some i.text, ts) := by
  have hresolve : resolve prefixes (.iri i.text) = .ok (.iri i) := Term.ofIri_text i
  exact bind_eq_ok_iff.mpr ⟨_, bind_eq_ok_iff.mpr ⟨_, hresolve, rfl⟩, rfl⟩

theorem not_isValue_of_datatypeText {prefixes : PrefixMapping} {token : Token} {text : String}
    (h : datatypeText prefixes token = .ok text) : ¬ token.IsValue := by
  obtain ⟨term, hterm, h⟩ := bind_eq_ok_iff.mp h
  rcases resolve_cases hterm with ⟨i, -, rfl⟩ | ⟨i, name, -, rfl, -⟩ | ⟨v, rfl, -⟩
  · exact id
  · exact id
  · cases h

theorem not_isValue_of_isGraph {graph : Token} (h : graph.IsGraph) : ¬ graph.IsValue := by
  obtain ⟨text, rfl | rfl⟩ := h <;> exact id

namespace IsExchange

variable {prefixes : PrefixMapping} {R : List Token → List Token → Prop} (hR : IsExchange R)
  {t : Token} {ts us rest : List Token}

include hR

theorem readDatatype {datatype : Option String} (h : readDatatype prefixes ts = .ok (datatype, rest))
    (hts : R ts us) : ∃ rest', QueryReader.readDatatype prefixes us = .ok (datatype, rest') ∧ R rest rest' := by
  have hcases := h
  unfold QueryReader.readDatatype at hcases
  split at hcases
  · next token others =>
    obtain ⟨text, htext, heq⟩ := bind_eq_ok_iff.mp hcases
    cases heq
    obtain ⟨us, rfl, hbehind⟩ := hR.keep id hts
    obtain ⟨us, rfl, hrest⟩ := hR.keep (not_isValue_of_datatypeText htext) hbehind
    exact ⟨us, bind_eq_ok_iff.mpr ⟨_, htext, rfl⟩, hrest⟩
  · cases hcases
  · next hlong hshort =>
    cases hcases
    have hmark : ts.head? ≠ some .datatypeMark := by
      intro hhead
      obtain ⟨others, rfl⟩ := List.head?_eq_some_iff.mp hhead
      cases others with
      | nil => exact hshort rfl
      | cons token others => exact hlong token others rfl
    exact ⟨us, readDatatype_of_ne (hR.head?_ne hts hmark), hts⟩

/-- A slot whose value is kept is read as before. -/
theorem readSlot {measure : Measure} {slot : String} {term : Term}
    (h : readSlot prefixes measure slot (t :: ts) = .ok (term, rest)) (hts : R ts us) :
    ∃ rest', QueryReader.readSlot prefixes measure slot (t :: us) = .ok (term, rest') ∧ R rest rest' := by
  by_cases hliteral : ∃ lexeme, t = .literal lexeme
  · obtain ⟨lexeme, rfl⟩ := hliteral
    rw [readSlot_literal] at h ⊢
    obtain ⟨datatype, hdatatype, hsame, hterm⟩ := readQuoted_eq_ok_iff.mp h
    obtain ⟨rest', hdatatype', hrest⟩ := hR.readDatatype hdatatype hts
    exact ⟨rest', readQuoted_eq_ok_iff.mpr ⟨datatype, hdatatype', hsame, hterm⟩, hrest⟩
  · -- every other value is a single token
    unfold QueryReader.readSlot at h ⊢
    dsimp only at h ⊢
    split at h
    case h_5 => exact absurd ⟨_, rfl⟩ hliteral
    case h_6 => cases h
    all_goals
      obtain ⟨_, hterm, heq⟩ := bind_eq_ok_iff.mp h
      cases heq
      exact ⟨us, bind_eq_ok_iff.mpr ⟨_, hterm, rfl⟩, hts⟩

end IsExchange

namespace Exchange

variable {prefixes : PrefixMapping} {names : Term → Term → Prop} {slots : Measure → Term → Term → Prop}
  {R : List Token → List Token → Prop} (hR : Exchange prefixes names slots R)
  {t u : Token} {ts us rest : List Token}

include hR

theorem expectWord {word : String} (h : expectWord word ts = .ok rest) (hts : R ts us) :
    ∃ rest', QueryReader.expectWord word us = .ok rest' ∧ R rest rest' := by
  obtain ⟨token, rfl, hword⟩ := eq_of_expectWord h
  obtain ⟨rest', rfl, hrest⟩ := hR.keep (not_isValue_of_isWord hword) hts
  exact ⟨rest', if_pos hword, hrest⟩

theorem expectPunct {mark : String} (h : expectPunct mark ts = .ok rest) (hts : R ts us) :
    ∃ rest', QueryReader.expectPunct mark us = .ok rest' ∧ R rest rest' := by
  obtain rfl := eq_of_expectPunct h
  obtain ⟨rest', rfl, hrest⟩ := hR.keep id hts
  exact ⟨rest', if_pos (beq_self_eq_true mark), hrest⟩

theorem skipWord {word : String} (hword : IsKeyword word) (h : R ts us) :
    R (skipWord word ts) (QueryReader.skipWord word us) := by
  have hskip : ∀ {others : List Token}, (∀ t ∈ others.head?, ¬ t.isWord word) →
      QueryReader.skipWord word others = others := by
    intro others hothers
    cases others with
    | nil => rfl
    | cons t others => exact if_neg (hothers t rfl)
  by_cases hts : ∀ t ∈ ts.head?, ¬ t.isWord word
  · rwa [hskip hts, hskip (hR.not_head? (fun t ht => ht.word word hword) h hts)]
  · obtain ⟨t, ht, hfirst⟩ : ∃ t ∈ ts.head?, t.isWord word := by simpa using hts
    obtain ⟨ts, rfl⟩ := List.head?_eq_some_iff.mp ht
    obtain ⟨us, rfl, hrest⟩ := hR.keep (not_isValue_of_isWord hfirst) h
    rwa [QueryReader.skipWord, QueryReader.skipWord, if_pos hfirst, if_pos hfirst]

theorem readName {expected : String} {term term' : Term}
    (h : readName prefixes expected ts = .ok (term, rest)) (hts : R ts us) (hnames : names term term') :
    ∃ rest', QueryReader.readName prefixes expected us = .ok (term', rest') ∧ R rest rest' := by
  cases ts with
  | nil => cases h
  | cons t ts =>
      obtain ⟨_, hterm, heq⟩ := bind_eq_ok_iff.mp h
      cases heq
      obtain ⟨u, us, rfl, hrest, hu⟩ := hR.name hts hterm hnames
      exact ⟨us, bind_eq_ok_iff.mpr ⟨_, hu, rfl⟩, hrest⟩

theorem readStep {measure : Measure} {step step' : Option Term}
    (h : readStep prefixes measure ts = .ok (step, rest)) (hrest : rest.head? ≠ some .datatypeMark)
    (hts : R ts us) (hstep : Option.Rel (slots measure) step step') :
    ∃ rest', QueryReader.readStep prefixes measure us = .ok (step', rest') ∧ R rest rest' := by
  have hnone : (∀ t ∈ us.head?, ¬ t.isWord "STEP") →
      QueryReader.readStep prefixes measure us = .ok (none, us) := by
    intro hus
    cases us with
    | nil => rfl
    | cons u us => exact if_neg (hus u rfl)
  cases ts with
  | nil =>
      cases h
      cases hstep
      obtain rfl := hR.nil hts
      exact ⟨[], rfl, hts⟩
  | cons t ts =>
      unfold QueryReader.readStep at h
      dsimp only at h
      split at h
      · next hword =>
        obtain ⟨⟨term, others⟩, hslot, heq⟩ := bind_eq_ok_iff.mp h
        cases heq
        cases hstep with
        | some hterm =>
            obtain ⟨us, rfl, hbehind⟩ := hR.keep (not_isValue_of_isWord hword) hts
            obtain ⟨rest', hslot', hrest'⟩ := hR.slot hslot hrest hbehind hterm
            rw [QueryReader.readStep, if_pos hword]
            exact ⟨rest', bind_eq_ok_iff.mpr ⟨_, hslot', rfl⟩, hrest'⟩
      · next hword =>
        cases h
        cases hstep
        refine ⟨us, hnone (hR.not_head? (fun t ht => ht.word _ (by decide)) hts ?_), hts⟩
        rintro _ ⟨⟩
        exact hword

theorem readPast_now {word slot : String} {term term' : Term}
    (h : readPast prefixes slot (.word word :: ts) = .ok (term, rest))
    (hrest : rest.head? ≠ some .datatypeMark) (hts : R ts us) (hterm : slots .duration term term') :
    ∃ rest', QueryReader.readPast prefixes slot (.word word :: us) = .ok (term', rest') ∧
      R rest rest' := by
  unfold QueryReader.readPast at h
  dsimp only at h
  split at h
  · next hsame =>
    have hread : QueryReader.readPast prefixes slot (.word word :: us) = _ := if_pos hsame
    rw [hread]
    split at h
    · next digits others =>
      obtain ⟨us, rfl, hrest'⟩ := hR.keep id hts
      dsimp only
      split at h
      · next hyphen digits' hdigits =>
        obtain ⟨_, hmillis, heq⟩ := bind_eq_ok_iff.mp h
        cases heq
        obtain ⟨l, rfl⟩ := exists_literal_of_millisTerm hmillis
        obtain rfl := hR.fixed hterm
        exact ⟨us, bind_eq_ok_iff.mpr ⟨_, hmillis, rfl⟩, hrest'⟩
      · cases h
    · next token others hnumber =>
      split at h
      · next hhyphen =>
        obtain rfl := eq_punct_of_isPunct hhyphen
        obtain ⟨us, rfl, hslot⟩ := hR.keep id hts
        exact hR.slot h hrest hslot hterm
      · cases h
    · cases h
  · cases h

/-- A point in the past is read behind the keyword in front of it. -/
theorem readPast {keyword : Token} {slot : String} {term term' : Term}
    (hkeyword : keyword.isWord "FROM" ∨ keyword.isWord "TO")
    (h : readPast prefixes slot ts = .ok (term, rest)) (hrest : rest.head? ≠ some .datatypeMark)
    (hts : R (keyword :: ts) us) (hterm : slots .duration term term') : ∃ us' rest',
      us = keyword :: us' ∧ QueryReader.readPast prefixes slot us' = .ok (term', rest') ∧ R rest rest' := by
  have hword : ¬ keyword.IsValue := hkeyword.elim not_isValue_of_isWord not_isValue_of_isWord
  have hcases := h
  unfold QueryReader.readPast at hcases
  split at hcases
  · next word others =>
    obtain ⟨us, rfl, hbehind⟩ := hR.keep hword hts
    obtain ⟨us, rfl, hnow⟩ := hR.keep id hbehind
    obtain ⟨rest', hpast, hrest'⟩ := hR.readPast_now h hrest hnow hterm
    exact ⟨_, rest', rfl, hpast, hrest'⟩
  · next name others =>
    obtain ⟨_, hvariable, heq⟩ := bind_eq_ok_iff.mp hcases
    cases heq
    obtain ⟨rfl, us, rfl, hrest'⟩ := hR.alone hkeyword hts hvariable hterm
    exact ⟨_, us, rfl, bind_eq_ok_iff.mpr ⟨_, hvariable, rfl⟩, hrest'⟩
  · cases hcases

theorem readFrame {frame frame' : Frame} {step step' : Option Term}
    (h : readFrame prefixes ts = .ok (frame, step, rest)) (hrest : rest.head? ≠ some .datatypeMark)
    (hts : R ts us) (hframe : FrameExchanged slots frame frame')
    (hstep : Option.Rel (slots frame.measure) step step') :
    ∃ rest', QueryReader.readFrame prefixes us = .ok (frame', step', rest') ∧ R rest rest' := by
  cases readFrame_eq_ok_iff.mp h with
  | logical hword hrange hreadstep =>
      obtain ⟨us, rfl, hbehind⟩ := hR.keep (not_isValue_of_isWord hword) hts
      cases hframe with
      | logical hterm =>
          obtain ⟨_, hrange', hothers⟩ := hR.slot hrange (head?_of_readStep hreadstep hrest) hbehind hterm
          obtain ⟨rest', hstep', hrest'⟩ := hR.readStep hreadstep hrest hothers hstep
          exact ⟨rest', readFrame_eq_ok_iff.mpr (.logical hword hrange' hstep'), hrest'⟩
  | physical hword hitems hreadstep =>
      obtain ⟨us, rfl, hbehind⟩ := hR.keep (not_isValue_of_isWord hword) hts
      cases hframe with
      | physical hterm =>
          obtain ⟨_, hitems', hothers⟩ := hR.slot hitems (head?_of_readStep hreadstep hrest) hbehind hterm
          obtain ⟨rest', hstep', hrest'⟩ := hR.readStep hreadstep hrest hothers hstep
          exact ⟨rest', readFrame_eq_ok_iff.mpr (.physical hword hitems' hstep'), hrest'⟩
  | past hword hstart hto hstop hreadstep =>
      obtain ⟨token, rfl, htoken⟩ := eq_of_expectWord hto
      cases hframe with
      | past hstartterm hstopterm =>
          have hmark : ∀ ts, (token :: ts).head? ≠ some .datatypeMark := by
            rintro _ ⟨⟩
            cases htoken
          obtain ⟨us, _, rfl, hstart', hbetween⟩ :=
            hR.readPast (.inl hword) hstart (hmark _) hts hstartterm
          obtain ⟨_, _, rfl, hstop', hbehind⟩ := hR.readPast (.inr htoken) hstop
            (head?_of_readStep hreadstep hrest) hbetween hstopterm
          obtain ⟨rest', hstep', hrest'⟩ := hR.readStep hreadstep hrest hbehind hstep
          exact ⟨rest', readFrame_eq_ok_iff.mpr (.past hword hstart' (if_pos htoken) hstop' hstep'), hrest'⟩

/-- A declaration of a window is read as what becomes of the window. -/
theorem readWindow {window window' : Window} (h : readWindow prefixes ts = .ok (window, rest))
    (hts : R ts us) (hwindow : WindowExchanged names slots window window') :
    ∃ rest', QueryReader.readWindow prefixes us = .ok (window', rest') ∧ R rest rest' := by
  obtain ⟨_, _, _, _, hid, hon, hstream, hframe, rfl⟩ := readWindow_eq_ok_iff.mp h
  obtain ⟨_, hid', hafterId⟩ := hR.readName hid hts hwindow.id
  obtain ⟨_, hon', hafterOn⟩ := hR.expectWord hon hafterId
  obtain ⟨_, hstream', hafterStream⟩ :=
    hR.readName hstream (hR.skipWord (by decide) hafterOn) hwindow.stream
  -- the brackets are punctuation, which is kept where it is
  obtain ⟨_, rfl, hafterOpening⟩ := hR.keep id hafterStream
  obtain ⟨_, hframe', hafterFrame⟩ :=
    hR.readFrame hframe nofun hafterOpening hwindow.frame hwindow.step
  obtain ⟨rest', rfl, hrest⟩ := hR.keep id hafterFrame
  exact ⟨rest', readWindow_eq_ok_iff.mpr ⟨_, _, _, _, hid', hon', hstream', hframe', rfl⟩, hrest⟩

theorem sourceReading {source source' : DatasetClause ⊕ Window}
    (h : SourceReading prefixes ts source rest) (hts : R ts us)
    (hsource : SourceExchanged names slots source source') :
    ∃ rest', SourceReading prefixes us source' rest' ∧ R rest rest' := by
  cases h with
  | default hgraph =>
      cases hsource
      obtain ⟨rest', rfl, hrest⟩ := hR.keep (not_isValue_of_isGraph hgraph) hts
      exact ⟨rest', .default hgraph, hrest⟩
  | named hnamed hgraph =>
      cases hsource
      obtain ⟨_, rfl, hbehind⟩ := hR.keep (not_isValue_of_isWord hnamed) hts
      obtain ⟨rest', rfl, hrest⟩ := hR.keep (not_isValue_of_isGraph hgraph) hbehind
      exact ⟨rest', .named hnamed hgraph, hrest⟩
  | window hnamed hkeyword hwindow =>
      cases hsource with
      | window hexchanged =>
          obtain ⟨_, rfl, hbehind⟩ := hR.keep (not_isValue_of_isWord hnamed) hts
          obtain ⟨_, rfl, hdeclared⟩ := hR.keep (not_isValue_of_isWord hkeyword) hbehind
          obtain ⟨rest', hwindow', hrest⟩ := hR.readWindow hwindow hdeclared hexchanged
          exact ⟨rest', .window hnamed hkeyword hwindow', hrest⟩

/-- Clauses are read as what becomes of them. -/
theorem sourcesReading {sources sources' : List (DatasetClause ⊕ Window)}
    (h : SourcesReading prefixes ts sources rest) (hts : R ts us)
    (hsources : List.Forall₂ (SourceExchanged names slots) sources sources') :
    ∃ rest', SourcesReading prefixes us sources' rest' ∧ R rest rest' := by
  induction h generalizing us sources' with
  | nil hfrom =>
      cases hsources
      exact ⟨us, .nil (hR.not_head? (fun t ht => ht.word "FROM" (by decide)) hts hfrom), hts⟩
  | cons hkeyword hsource _ ih =>
      cases hsources with
      | cons hfirst hothers =>
          obtain ⟨_, rfl, hbehind⟩ := hR.keep (not_isValue_of_isWord hkeyword) hts
          obtain ⟨_, hsource', hrest⟩ := hR.sourceReading hsource hbehind hfirst
          obtain ⟨rest', hsources', hrest'⟩ := ih hrest hothers
          exact ⟨rest', .cons hkeyword hsource' hsources', hrest'⟩

/-- The bounds are not reached. -/
theorem readSources (hprefixes : prefixes.Declared) {bound bound' : Nat}
    {sources sources' : List (DatasetClause ⊕ Window)}
    (h : readSources prefixes bound ts = .ok (sources, rest)) (hts : R ts us)
    (hlexical : ∀ t ∈ ts, t.Lexical) (hlexical' : ∀ u ∈ us, u.Lexical)
    (hbound : ts.length ≤ bound) (hbound' : us.length ≤ bound')
    (hsources : List.Forall₂ (SourceExchanged names slots) sources sources') :
    ∃ rest', QueryReader.readSources prefixes bound' us = .ok (sources', rest') ∧ R rest rest' := by
  have hreading := (readSources_eq_ok_iff hprefixes hlexical hbound).mp h
  obtain ⟨rest', hreading', hrest⟩ := hR.sourcesReading hreading hts hsources
  exact ⟨rest', (readSources_eq_ok_iff hprefixes hlexical' hbound').mpr hreading', hrest⟩

end Exchange

end QueryReader

end StreamQuery
