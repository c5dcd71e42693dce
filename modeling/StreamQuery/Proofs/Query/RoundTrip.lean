import StreamQuery.Proofs.Query.Reading

/-! # Reading a written query

A query that was read from a text is read again from the text that is written of it.
-/

namespace StreamQuery

open Text Lexeme Token QueryReader

namespace QueryReader

variable {query : Query}

theorem datasetOf_append (dataset : List DatasetClause) (windows : List Window) :
    datasetOf (dataset.map Sum.inl ++ windows.map Sum.inr) = dataset := by
  simp [datasetOf, List.filterMap_append, List.filterMap_map, Function.comp_def]

theorem windowsOf_append (dataset : List DatasetClause) (windows : List Window) :
    windowsOf (dataset.map Sum.inl ++ windows.map Sum.inr) = windows := by
  simp [windowsOf, List.filterMap_append, List.filterMap_map, Function.comp_def]

/-- The tokens of a query behind its result. -/
def restTokens (query : Query) : List Token :=
  (query.body.dataset.map Sum.inl ++ query.windows.map Sum.inr).flatMap
      (sourceTokens query.prologue.prefixes) ++
    (patternTokens "WINDOW" query.prologue.prefixes query.body.pattern ++ query.body.modifiers)

theorem nativeTokens_eq (query : Query) : query.nativeTokens = query.prologue.tokens ++
    (query.registerTokens ++ (query.body.form.tokens query.resultKeyword ++ restTokens query)) := by
  simp [Query.nativeTokens, QueryBody.tokens, restTokens, patternTokens, sourceTokens, List.flatMap_map]

theorem head?_sourceTokens {prefixes : PrefixMapping} (source : DatasetClause ⊕ Window) :
    (sourceTokens prefixes source).head? = some (.word "FROM") := by
  cases source with
  | inl clause => cases clause <;> rfl
  | inr window => rfl

/-- Behind the result of a query there is a clause, or nothing. -/
theorem head?_restTokens (h : query.Reading) : ∀ t ∈ (restTokens query).head?, beginsClause t := by
  unfold restTokens
  cases hsources : query.body.dataset.map Sum.inl ++ query.windows.map Sum.inr with
  | cons source sources =>
      intro t ht
      rw [List.flatMap_cons, List.append_assoc, List.head?_append, head?_sourceTokens] at ht
      cases ht
      decide
  | nil =>
      obtain ⟨hdataset, hwindows⟩ := List.append_eq_nil_iff.mp hsources
      cases hpattern : query.body.pattern with
      | none =>
          obtain ⟨-, -, hmodifiers⟩ := h.missing hpattern
          rw [hmodifiers (List.map_eq_nil_iff.mp hdataset) (List.map_eq_nil_iff.mp hwindows)]
          nofun
      | some pattern =>
          rintro t ⟨⟩
          decide

theorem head?_form (query : Query) (rest : List Token) :
    ∃ word ∈ ["SELECT", "CONSTRUCT", "ASK", "DESCRIBE"],
      (query.body.form.tokens query.resultKeyword ++ rest).head? = some (.word word) := by
  cases query.body.form with
  | select => exact ⟨"SELECT", by decide, rfl⟩
  | construct => exact ⟨"CONSTRUCT", by decide, rfl⟩
  | ask => exact ⟨"ASK", by decide, rfl⟩
  | describe => exact ⟨"DESCRIBE", by decide, rfl⟩

theorem not_begins_form (query : Query) (rest : List Token) :
    ∀ t ∈ (query.body.form.tokens query.resultKeyword ++ rest).head?,
      ¬ t.isWord "REGISTER" ∧ ¬ beginsDeclaration t := by
  obtain ⟨word, hword, hhead⟩ := head?_form query rest
  have hall : ∀ word ∈ ["SELECT", "CONSTRUCT", "ASK", "DESCRIBE"],
      ¬ (Token.word word).isWord "REGISTER" ∧ ¬ beginsDeclaration (.word word) := by decide
  rw [hhead]
  rintro t ⟨⟩
  exact hall word hword

theorem not_begins_register (query : Query) (rest : List Token) :
    ∀ t ∈ (query.registerTokens ++
      (query.body.form.tokens query.resultKeyword ++ rest)).head?, ¬ beginsDeclaration t := by
  unfold Query.registerTokens
  cases query.output with
  | none => exact fun t ht => (not_begins_form query rest t ht).2
  | some stream =>
      rintro t ⟨⟩
      decide

theorem readSources_restTokens (h : query.Reading) (hbare : ∀ window ∈ query.windows, window.IsBare) :
    readSources query.prologue.prefixes (restTokens query).length (restTokens query) =
      .ok (query.body.dataset.map Sum.inl ++ query.windows.map Sum.inr,
        patternTokens "WINDOW" query.prologue.prefixes query.body.pattern ++
          query.body.modifiers) := by
  refine readSources_tokens (h.sourceFits h.declared) ?_ ?_ (Nat.le_refl _)
  · intro window hwindow
    refine hbare window ?_
    simpa using hwindow
  · cases hpattern : query.body.pattern with
    | none => exact (h.missing hpattern).2.1
    | some pattern =>
        rintro t ⟨⟩
        decide

theorem declareOutput_again (h : query.Reading) :
    declareOutput { Query.ofBody query.prologue query.body with windows := query.windows }
      (if query.resultHasOperator then query.operator else .unspecified)
      (query.output.map fun stream =>
        (stream.nameToken query.prologue.prefixes, query.registeredOperator)) = .ok query := by
  have hagain : ∀ output operator, query.output = output → query.operator = operator →
      Query.mk query.prologue query.body query.windows output operator = query := by
    rintro _ _ rfl rfl
    rfl
  cases houtput : query.output with
  | none =>
      cases hholds : query.resultHasOperator with
      | false => exact congrArg _ (hagain _ _ houtput (h.operator houtput hholds))
      | true => exact congrArg _ (hagain _ _ houtput rfl)
  | some stream =>
      have hresolves := (h.output stream houtput).resolves
      refine bind_eq_ok_iff.mpr ⟨stream, hresolves, congrArg _ (hagain _ _ houtput ?_)⟩
      unfold Query.registeredOperator
      cases query.resultHasOperator with
      | false =>
          show query.operator =
            if query.operator = .unspecified then .unspecified else query.operator
          split
          · next hnone => exact hnone
          · rfl
      | true => rfl

/-- A query is read from its tokens. -/
theorem readQuery_nativeTokens (h : query.Reading)
    (hbare : ∀ window ∈ query.windows, window.IsBare) :
    readQuery query.nativeTokens = .ok query := by
  obtain ⟨spoken, hreading, hspoken⟩ := h.form
  obtain ⟨ts, hpattern⟩ := h.pattern
  have hpatternread := hpattern.readPattern_tokens h.prologue.prefixes
  have hcheck := checkPattern_isSome (fun hnone => (h.missing hnone).1) query.body.modifiers
  rw [nativeTokens_eq]
  refine bind_eq_ok_iff.mpr ⟨_, readPrologue_tokens h.prologue (not_begins_register query _), ?_⟩
  refine bind_eq_ok_iff.mpr ⟨_, readRegister_tokens h.output fun t ht =>
    (not_begins_form query _ t ht).1, ?_⟩
  refine bind_eq_ok_iff.mpr ⟨_, readPrologue_of_not fun t ht => (not_begins_form query _ t ht).2, ?_⟩
  refine bind_eq_ok_iff.mpr ⟨_, readResult_tokens hreading hspoken (head?_restTokens h), ?_⟩
  refine bind_eq_ok_iff.mpr ⟨_, readSources_restTokens h hbare, ?_⟩
  refine bind_eq_ok_iff.mpr ⟨_, hpatternread, bind_eq_ok_iff.mpr ⟨_, hcheck, ?_⟩⟩
  have hdeclared : ((Query.ofBody query.prologue ⟨query.body.form,
      datasetOf (query.body.dataset.map Sum.inl ++ query.windows.map Sum.inr),
      query.body.pattern, query.body.modifiers⟩).addWindows
        (windowsOf (query.body.dataset.map Sum.inl ++ query.windows.map Sum.inr))) =
      .ok { Query.ofBody query.prologue query.body with windows := query.windows } := by
    rw [datasetOf_append, windowsOf_append]
    exact h.names
  exact bind_eq_ok_iff.mpr ⟨_, mapError_eq_ok_iff.mpr hdeclared, declareOutput_again h⟩

end QueryReader

namespace Query

variable {text : String} {query : Query}

/-- What is known of a query is enough to read it from its text, if its durations are written without
blanks and signs and its runs of tokens are told apart. -/
theorem Reading.read_text (h : query.Reading) (hbare : ∀ window ∈ query.windows, window.IsBare)
    (hruns : ∀ ts ∈ query.body.runs, Separable ts) : read query.nativeText = .ok query := by
  have hnative := tokens?_nativeText h.prologue
    (fun stream hstream => (h.output stream hstream).lexical)
    (fun window hwindow => h.windows window hwindow (hbare window hwindow)) h.lexical hruns
  exact bind_eq_ok_iff.mpr ⟨_, mapError_eq_ok_iff.mpr (Token.read_eq_ok_iff.mpr hnative),
    readQuery_nativeTokens h hbare⟩

/-- A query is read again from its text, if its prefix labels hold no colon, its durations are
written without blanks and signs, and its runs of tokens are told apart. -/
theorem read_nativeText (h : read text = .ok query)
    (hlabels : ∀ entry ∈ query.prologue.prefixes.entries, PrefixMapping.IsPlainLabel entry.1)
    (hbare : ∀ window ∈ query.windows, window.IsBare)
    (hruns : ∀ ts ∈ query.body.runs, Separable ts) : read query.nativeText = .ok query :=
  (reading_of_read h hlabels).read_text hbare hruns

/-- The text of a query over the last hour of a stream. -/
def hourlyText : String := "PREFIX : <http://a/> REGISTER ISTREAM :out AS " ++
  "SELECT ?x FROM NAMED WINDOW :w ON :s [RANGE PT1H] WHERE { WINDOW :w { ?x ?p ?o } }"

/-- The query over the last hour of a stream. -/
def hourly : Query where
  prologue := ⟨none, SortedMap.empty.insert "" "http://a/"⟩
  body := {
    form := .select none [.variable "x"]
    dataset := []
    pattern := some (.window (.iri ⟨"http://a/w", by decide⟩)
      (.run [.variable "x", .variable "p", .variable "o"] .nil) .nil)
    modifiers := [] }
  windows := [⟨.iri ⟨"http://a/w", by decide⟩, .iri ⟨"http://a/s", by decide⟩,
    .logical (.literal (.typed "PT1H" "http://www.w3.org/2001/XMLSchema#duration")), none⟩]
  output := some (.iri ⟨"http://a/out", by decide⟩)
  operator := .istream

theorem read_hourlyText : read hourlyText = .ok hourly := by decide +kernel

theorem hourly_runs : ∀ ts ∈ hourly.body.runs, Separable ts := by
  have hplain : ∀ ts ∈ hourly.body.runs, .punct "-" ∉ ts ∧ .datatypeMark ∉ ts := by decide
  exact fun ts hts => .of_not_mem (hplain ts hts).1 (hplain ts hts).2

theorem read_nativeText_hourly : read hourly.nativeText = .ok hourly := by
  refine read_nativeText read_hourlyText (by decide +kernel) ?_ hourly_runs
  intro window hwindow hmeasure term hterm l hl
  obtain rfl := List.mem_singleton.mp hwindow
  obtain rfl := List.mem_singleton.mp hterm
  cases hl
  decide

/-! ### The base query -/

/-- The text of the base query has the tokens of the text that was read, without what concerns
streams and behind the declarations of the query. -/
theorem read_plainText (h : read text = .ok query)
    (hlabels : ∀ entry ∈ query.prologue.prefixes.entries, PrefixMapping.IsPlainLabel entry.1)
    (hruns : ∀ ts ∈ query.body.runs, Separable ts) :
    ∃ ts, Token.read text = .ok ts ∧ Token.read query.plainText =
      .ok (query.prologue.tokens ++ baseTokens query.prologue.prefixes ts) := by
  obtain ⟨ts, htext, hquery⟩ := bind_eq_ok_iff.mp h
  have htokens := mapError_eq_ok_iff.mp htext
  have hlexical := lexical_of_tokens? (Token.read_eq_ok_iff.mp htokens)
  obtain ⟨parts⟩ := parts_of_readQuery hquery
  have hreading := parts.reading hlexical hlabels
  refine ⟨ts, htokens, Token.read_eq_ok_iff.mpr ?_⟩
  rw [parts.baseTokens_eq hlexical hlabels]
  exact tokens?_plainText hreading.prologue hreading.lexical hruns

theorem read_plainText_hourly : ∃ ts, Token.read hourlyText = .ok ts ∧
    Token.read hourly.plainText =
      .ok (hourly.prologue.tokens ++ baseTokens hourly.prologue.prefixes ts) :=
  read_plainText read_hourlyText (by decide +kernel) hourly_runs

/-- Keywords are not written in the case that they were read in. -/
theorem plainText_lower_case : ∃ query,
    read "select ?x WHERE \x7b ?x ?p ?o \x7d" = .ok query ∧
      query.prologue = .empty ∧ (∀ ts ∈ query.body.runs, Separable ts) ∧
      Token.read "select ?x WHERE \x7b ?x ?p ?o \x7d" = .ok [.word "select", .variable "x",
        .word "WHERE", .punct "\x7b", .variable "x", .variable "p", .variable "o", .punct "\x7d"] ∧
      Token.read query.plainText ≠ .ok (query.prologue.tokens ++ [.word "select", .variable "x",
        .word "WHERE", .punct "\x7b", .variable "x", .variable "p", .variable "o",
        .punct "\x7d"]) := by
  have hplain : ∀ ts ∈ [[.variable "x"], [.variable "x", .variable "p", .variable "o"], []],
      .punct "-" ∉ ts ∧ Token.datatypeMark ∉ ts := by decide
  exact ⟨.ofBody .empty ⟨.select none [.variable "x"], [],
      some (.run [.variable "x", .variable "p", .variable "o"] .nil), []⟩, by decide +kernel, rfl,
    fun ts hts => .of_not_mem (hplain ts hts).1 (hplain ts hts).2, by decide +kernel,
    by decide +kernel⟩

end Query

end StreamQuery
