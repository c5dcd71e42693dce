import Mathlib.Data.List.Nodup
import StreamQuery.Proofs.Query.Clause

/-! # Reading whole queries

What the reader finds out about a query, part by part: enough to write it and to read it again, and
enough to tell which tokens of the text its base query has.
-/

namespace StreamQuery

open Text Lexeme Token QueryReader

namespace Query

theorem addWindow_eq_ok {query query' : Query} {window : Window}
    (h : query.addWindow window = .ok query') :
    query' = { query with windows := query.windows ++ [window] } := by
  unfold addWindow at h
  split at h
  · cases h
  · cases h
    rfl

theorem addWindows_eq_ok {query query' : Query} {windows : List Window}
    (h : query.addWindows windows = .ok query') :
    query' = { query with windows := query.windows ++ windows } := by
  induction windows generalizing query with
  | nil =>
      cases h
      simp
  | cons window windows ih =>
      obtain ⟨between, hwindow, hrest⟩ := bind_eq_ok_iff.mp h
      obtain rfl := addWindow_eq_ok hwindow
      rw [ih hrest]
      simp

theorem addWindow_of_not_mem {query : Query} {window : Window}
    (h : window.id ∉ query.windows.map Window.id) :
    query.addWindow window = .ok { query with windows := query.windows ++ [window] } := by
  have hnone : query.window? window.id = none := by
    apply List.find?_eq_none.mpr
    intro other hother hid
    rw [← of_decide_eq_true hid] at h
    exact h (List.mem_map_of_mem hother)
  simp [addWindow, hnone]

/-- Names of windows stay apart. -/
theorem nodup_addWindow {query query' : Query} {window : Window}
    (h : query.addWindow window = .ok query') (hids : (query.windows.map Window.id).Nodup) :
    (query'.windows.map Window.id).Nodup := by
  have hnew : query.window? window.id = none := by
    unfold addWindow at h
    split at h
    · cases h
    · next hnone => simpa using hnone
  have hfresh : window.id ∉ query.windows.map Window.id := by
    intro hmem
    obtain ⟨other, hother, hid⟩ := List.mem_map.mp hmem
    have hdiffers := List.find?_eq_none.mp hnew other hother
    exact hdiffers (by simpa using hid)
  rw [addWindow_eq_ok h, List.map_append]
  refine List.nodup_append.mpr ⟨hids, List.pairwise_singleton _ _, fun id hid id' hid' heq => ?_⟩
  rw [heq, List.mem_singleton.mp hid'] at hid
  exact hfresh hid

theorem nodup_addWindows {query query' : Query} {windows : List Window}
    (h : query.addWindows windows = .ok query') (hids : (query.windows.map Window.id).Nodup) :
    (query'.windows.map Window.id).Nodup := by
  induction windows generalizing query with
  | nil =>
      cases h
      exact hids
  | cons window windows ih =>
      obtain ⟨between, hwindow, hrest⟩ := bind_eq_ok_iff.mp h
      exact ih hrest (nodup_addWindow hwindow hids)

theorem addWindows_of_nodup {query : Query} {windows : List Window}
    (h : ((query.windows ++ windows).map Window.id).Nodup) :
    query.addWindows windows = .ok { query with windows := query.windows ++ windows } := by
  induction windows generalizing query with
  | nil =>
      rw [List.append_nil]
      rfl
  | cons window windows ih =>
      have hnew : window.id ∉ query.windows.map Window.id := by
        rw [List.map_append, List.map_cons] at h
        exact fun hmem => (List.nodup_append.mp h).2.2 _ hmem _ List.mem_cons_self rfl
      refine bind_eq_ok_iff.mpr ⟨_, addWindow_of_not_mem hnew, ?_⟩
      have hrest := @ih { query with windows := query.windows ++ [window] } (by simpa using h)
      simp only [List.append_assoc, List.singleton_append] at hrest
      exact hrest

/-- A window is found under its name. -/
theorem window?_of_mem {query : Query} (hids : (query.windows.map Window.id).Nodup) {window : Window}
    (h : window ∈ query.windows) : query.window? window.id = some window := by
  obtain ⟨found, hfound⟩ : ∃ found, query.window? window.id = some found :=
    Option.isSome_iff_exists.mp (List.find?_isSome.mpr ⟨window, h, by simp⟩)
  have hid : found.id = window.id := by simpa using List.find?_some hfound
  rw [hfound, List.inj_on_of_nodup_map hids (List.mem_of_find?_eq_some hfound) h hid]

/-- What is known of a query that was read. -/
structure Reading (query : Query) : Prop where
  prologue : query.prologue.Declared
  output : ∀ stream ∈ query.output, stream.Names query.prologue.prefixes
  /-- The operator in the result need not be the one that counts. -/
  form : ∃ spoken, ResultReading query.body.form spoken ∧
    (query.operator = .unspecified → spoken = .unspecified)
  operator : query.output = none → query.resultHasOperator = false → query.operator = .unspecified
  dataset : ∀ clause ∈ query.body.dataset, clause.graph.IsGraph ∧ clause.graph.Lexical
  declared : ∀ window ∈ query.windows, window.Reading query.prologue.prefixes
  names : (ofBody query.prologue query.body).addWindows query.windows =
    .ok { ofBody query.prologue query.body with windows := query.windows }
  pattern : ∃ ts, PatternReading query.prologue.prefixes ts query.body.pattern query.body.modifiers
  /-- Only what is described can do without a pattern, and then nothing can be mistaken for a
  clause. -/
  missing : query.body.pattern = none → query.body.form.form = .describe ∧
    (∀ t ∈ query.body.modifiers.head?, ¬ t.isWord "FROM") ∧
    (query.body.dataset = [] → query.windows = [] → query.body.modifiers = [])
  lexical : query.body.Lexical query.prologue.prefixes

theorem Reading.windows {query : Query} (h : query.Reading) :
    ∀ window ∈ query.windows, window.IsBare → window.Fits query.prologue.prefixes :=
  fun window hwindow => (h.declared window hwindow).fits

/-- The windows of a query that was read have names of their own. -/
theorem Reading.nodup {query : Query} (h : query.Reading) : (query.windows.map Window.id).Nodup := by
  have hids := nodup_addWindows h.names List.nodup_nil
  exact hids

end Query

namespace QueryReader

variable {ts rest : List Token} {query : Query}

theorem checkPattern_spec {form : ResultForm} {hasWhere : Bool} {pattern : Option Pattern}
    (h : checkPattern form hasWhere pattern ts = .ok ()) (hpattern : pattern = none) :
    ∃ targets, form = .describe targets := by
  subst hpattern
  cases form with
  | describe targets => exact ⟨targets, rfl⟩
  | construct template => cases template <;> cases h
  | _ => cases h

theorem checkPattern_isSome {form : ResultForm} {pattern : Option Pattern}
    (h : pattern = none → form.form = .describe) (ts : List Token) :
    checkPattern form pattern.isSome pattern ts = .ok () := by
  cases pattern with
  | none =>
      cases form with
      | describe targets => rfl
      | _ => cases h rfl
  | some p =>
      cases form with
      | construct template => cases template <;> rfl
      | _ => rfl

/-- The dataset clauses among sources. -/
def datasetOf (sources : List (DatasetClause ⊕ Window)) : List DatasetClause :=
  sources.filterMap Sum.getLeft?

/-- The windows among sources. -/
def windowsOf (sources : List (DatasetClause ⊕ Window)) : List Window :=
  sources.filterMap Sum.getRight?

theorem flatMap_baseSource (sources : List (DatasetClause ⊕ Window)) :
    sources.flatMap baseSource = (datasetOf sources).flatMap DatasetClause.tokens := by
  induction sources with
  | nil => rfl
  | cons source sources ih =>
      rw [List.flatMap_cons, ih]
      cases source with
      | inl clause => simp [baseSource, datasetOf]
      | inr window => rfl

theorem sources_eq_nil {sources : List (DatasetClause ⊕ Window)} (hdataset : datasetOf sources = [])
    (hwindows : windowsOf sources = []) : sources = [] := by
  cases sources with
  | nil => rfl
  | cons source sources => cases source <;> simp [datasetOf, windowsOf] at hdataset hwindows

theorem declareOutput_spec {declared : Query} {spoken : OutputOperator}
    {register : Option (Token × OutputOperator)}
    (h : declareOutput declared spoken register = .ok query) (hnone : declared.output = none) :
    ∃ output operator, query = { declared with output := output, operator := operator } ∧
      (∀ stream ∈ output, ∃ registered ∈ register,
        resolve declared.prologue.prefixes registered.1 = .ok stream) ∧
      (operator = .unspecified → spoken = .unspecified) ∧ (output = none → operator = spoken) := by
  cases register with
  | none =>
      cases h
      exact ⟨none, spoken, by rw [← hnone]; rfl, nofun, id, fun _ => rfl⟩
  | some registered =>
      obtain ⟨stream, hstream, heq⟩ := bind_eq_ok_iff.mp h
      cases heq
      refine ⟨some stream, _, rfl, ?_, ?_, nofun⟩
      · rintro _ ⟨⟩
        exact ⟨registered, rfl, hstream⟩
      · intro hoperator
        split at hoperator
        · exact hoperator
        · next hne => exact absurd hoperator hne

/-- The parts of a query that was read, and what is left of the text behind each of them. -/
structure Parts (ts : List Token) (query : Query) where
  first : Prologue
  afterFirst : List Token
  readFirst : readPrologue .empty ts = .ok (first, afterFirst)
  register : Option (Token × OutputOperator)
  afterRegister : List Token
  readRegister : readRegister afterFirst = .ok (register, afterRegister)
  afterPrologue : List Token
  readPrologue : readPrologue first afterRegister = .ok (query.prologue, afterPrologue)
  spoken : OutputOperator
  afterResult : List Token
  readResult : readResult afterPrologue = .ok (query.body.form, spoken, afterResult)
  sources : List (DatasetClause ⊕ Window)
  afterSources : List Token
  readSources : readSources query.prologue.prefixes afterResult.length afterResult =
    .ok (sources, afterSources)
  dataset : query.body.dataset = datasetOf sources
  windows : query.windows = windowsOf sources
  names : (Query.ofBody query.prologue query.body).addWindows query.windows =
    .ok { Query.ofBody query.prologue query.body with windows := query.windows }
  hasWhere : Bool
  readPattern : readPattern query.prologue.prefixes afterSources =
    .ok (hasWhere, query.body.pattern, query.body.modifiers)
  checkPattern : checkPattern query.body.form hasWhere query.body.pattern query.body.modifiers =
    .ok ()
  output : ∀ stream ∈ query.output, ∃ registered ∈ register,
    resolve query.prologue.prefixes registered.1 = .ok stream
  operator : query.operator = .unspecified → spoken = .unspecified
  unregistered : query.output = none → query.operator = spoken

theorem parts_of_readQuery (h : readQuery ts = .ok query) : Nonempty (Parts ts query) := by
  obtain ⟨⟨first, afterFirst⟩, hfirst, h⟩ := bind_eq_ok_iff.mp h
  obtain ⟨⟨register, afterRegister⟩, hregister, h⟩ := bind_eq_ok_iff.mp h
  obtain ⟨⟨prologue, afterPrologue⟩, hprologue, h⟩ := bind_eq_ok_iff.mp h
  obtain ⟨⟨form, spoken, afterResult⟩, hresult, h⟩ := bind_eq_ok_iff.mp h
  obtain ⟨⟨sources, afterSources⟩, hsources, h⟩ := bind_eq_ok_iff.mp h
  obtain ⟨⟨hasWhere, pattern, modifiers⟩, hpattern, h⟩ := bind_eq_ok_iff.mp h
  obtain ⟨_, hcheck, h⟩ := bind_eq_ok_iff.mp h
  obtain ⟨declared, hwindows, h⟩ := bind_eq_ok_iff.mp h
  rw [mapError_eq_ok_iff] at hwindows
  have hdeclared := Query.addWindows_eq_ok hwindows
  rw [hdeclared] at hwindows h
  obtain ⟨output, operator, rfl, houtput, hspoken, hunregistered⟩ := declareOutput_spec h rfl
  exact ⟨⟨first, afterFirst, hfirst, register, afterRegister, hregister, afterPrologue, hprologue,
    spoken, afterResult, hresult, sources, afterSources, hsources, rfl, rfl, hwindows, hasWhere,
    hpattern, hcheck, houtput, hspoken, hunregistered⟩⟩

namespace Parts

variable (parts : Parts ts query) (hts : ∀ t ∈ ts, t.Lexical)
  (hplain : ∀ entry ∈ query.prologue.prefixes.entries, PrefixMapping.IsPlainLabel entry.1)

include parts hts

/-- What stands in front of the result, whatever the labels are. -/
theorem fromTokens : query.prologue.FromTokens ∧
    (∀ registered ∈ parts.register, registered.1.Lexical) ∧
      (∀ t ∈ parts.afterPrologue, t.Lexical) ∧
      dropDeclarations (dropRegister (dropDeclarations ts)) = parts.afterPrologue := by
  obtain ⟨hfirst, hlexfirst, hdropfirst⟩ := readPrologue_spec parts.readFirst .empty hts
  obtain ⟨hregister, hlexregister, hdropregister⟩ :=
    readRegister_spec parts.readRegister hlexfirst
  obtain ⟨hprologue, hlexprologue, hdropprologue⟩ :=
    readPrologue_spec parts.readPrologue hfirst hlexregister
  exact ⟨hprologue, hregister, hlexprologue, by rw [hdropfirst, hdropregister, hdropprologue]⟩

include hplain

/-- What stands in front of the result. -/
theorem declared : query.prologue.Declared ∧
    (∀ registered ∈ parts.register, registered.1.Lexical) ∧
      (∀ t ∈ parts.afterPrologue, t.Lexical) ∧
      dropDeclarations (dropRegister (dropDeclarations ts)) = parts.afterPrologue := by
  obtain ⟨hprologue, hrest⟩ := parts.fromTokens hts
  exact ⟨hprologue.declared hplain, hrest⟩

theorem lexical_result : (∀ t ∈ query.body.form.tokens none, t.Lexical) ∧
    ∀ t ∈ parts.afterResult, t.Lexical := by
  obtain ⟨-, -, hlexprologue, -⟩ := parts.declared hts hplain
  have hlexsplit := lexical_splitResult hlexprologue
  rw [(readResult_spec parts.readResult).2] at hlexsplit
  exact hlexsplit

/-- What stands between the result and the pattern. -/
theorem clauses : (∀ source ∈ parts.sources, SourceFits query.prologue.prefixes source) ∧
    (∀ t ∈ parts.afterSources, t.Lexical) ∧ (∀ t ∈ parts.afterSources.head?, ¬ t.isWord "FROM") ∧
      (parts.sources = [] → parts.afterSources = parts.afterResult) ∧
      baseClauses query.prologue.prefixes false parts.afterResult =
        parts.sources.flatMap baseSource ++
          basePattern query.prologue.prefixes parts.afterSources := by
  obtain ⟨hdeclared, -⟩ := parts.declared hts hplain
  obtain ⟨-, hlexresult⟩ := parts.lexical_result hts hplain
  obtain ⟨hfits, hsuffix, hfrom, hnil, hclauses⟩ :=
    ((readSources_eq_ok_iff hdeclared.prefixes hlexresult (Nat.le_refl _)).mp parts.readSources).spec
      hdeclared.prefixes hlexresult
  exact ⟨hfits, fun t ht => hlexresult t (hsuffix.subset ht), hfrom, hnil, hclauses⟩

/-- The base query has the tokens of the text without what concerns streams. -/
theorem baseTokens_eq : baseTokens query.prologue.prefixes ts =
    query.body.tokens none [] "GRAPH" query.prologue.prefixes := by
  obtain ⟨-, -, -, hdrop⟩ := parts.declared hts hplain
  obtain ⟨-, -, -, -, hclauses⟩ := parts.clauses hts hplain
  rw [baseTokens, hdrop, (readResult_spec parts.readResult).2]
  dsimp only
  rw [hclauses, (readPattern_spec parts.readPattern).basePattern_eq, flatMap_baseSource,
    ← parts.dataset]
  rfl

theorem missing (hpattern : query.body.pattern = none) : query.body.form.form = .describe ∧
    (∀ t ∈ query.body.modifiers.head?, ¬ t.isWord "FROM") ∧
      (query.body.dataset = [] → query.windows = [] → query.body.modifiers = []) := by
  obtain ⟨-, -, hfrom, hnil, -⟩ := parts.clauses hts hplain
  obtain ⟨targets, htargets⟩ := checkPattern_spec parts.checkPattern hpattern
  have hreading := readPattern_spec parts.readPattern
  rw [hpattern] at hreading
  obtain ⟨hmodifiers, hwhere, hopen⟩ := hreading.eq_of_missing
  rw [hmodifiers] at hfrom hnil
  refine ⟨by rw [htargets]; rfl, hfrom, fun hdataset hwindows => ?_⟩
  rw [parts.dataset] at hdataset
  rw [parts.windows] at hwindows
  obtain ⟨-, hsplit⟩ := readResult_spec parts.readResult
  rw [htargets] at hsplit
  have hends := endsResult_of_describe hsplit
  rw [← hnil (sources_eq_nil hdataset hwindows)] at hends
  cases hcons : query.body.modifiers with
  | nil => rfl
  | cons t rest =>
      rw [hcons] at hends hfrom hwhere hopen
      have hend := hends t rfl
      simp [endsResult, hfrom t rfl, hwhere t rfl, hopen t rfl] at hend

/-- A query that was read can be written, and read again. -/
theorem reading : query.Reading := by
  obtain ⟨hdeclared, hregister, -, -⟩ := parts.declared hts hplain
  obtain ⟨hlexform, -⟩ := parts.lexical_result hts hplain
  obtain ⟨hfits, hlexsources, -, -, -⟩ := parts.clauses hts hplain
  obtain ⟨hreading, -⟩ := readResult_spec parts.readResult
  have hpattern := readPattern_spec parts.readPattern
  obtain ⟨hlexpattern, hlexmodifiers⟩ := hpattern.lexical hdeclared.prefixes hlexsources
  have hdataset : ∀ clause ∈ query.body.dataset, clause.graph.IsGraph ∧ clause.graph.Lexical := by
    intro clause hclause
    rw [parts.dataset, datasetOf, List.mem_filterMap] at hclause
    obtain ⟨source, hsource, hleft⟩ := hclause
    cases source with
    | inl clause' =>
        cases hleft
        exact hfits _ hsource
    | inr window => cases hleft
  refine ⟨hdeclared, ?_, ⟨parts.spoken, hreading, parts.operator⟩, ?_, hdataset, ?_, parts.names,
    ⟨_, hpattern⟩, parts.missing hts hplain, ⟨hlexform, ?_, hlexpattern, hlexmodifiers⟩⟩
  · intro stream hstream
    obtain ⟨registered, hregistered, hresolve⟩ := parts.output stream hstream
    exact names_of_resolve hdeclared.prefixes (hregister registered hregistered) hresolve
  · intro hnone hholds
    exact (parts.unregistered hnone).trans (hreading.unspecified hholds)
  · intro window hwindow
    rw [parts.windows, windowsOf, List.mem_filterMap] at hwindow
    obtain ⟨source, hsource, hright⟩ := hwindow
    cases source with
    | inl clause => cases hright
    | inr window' =>
        cases hright
        exact hfits _ hsource
  · exact fun clause hclause => DatasetClause.lexical_tokens (hdataset clause hclause).2

end Parts

end QueryReader

namespace Query

/-- The tokens of a query that was read, and the parts that they were read as. -/
theorem exists_parts_of_read {text : String} {query : Query} (h : read text = .ok query) :
    ∃ ts, (∀ t ∈ ts, t.Lexical) ∧ Nonempty (Parts ts query) := by
  obtain ⟨ts, htext, hquery⟩ := bind_eq_ok_iff.mp h
  have htokens := Token.read_eq_ok_iff.mp (mapError_eq_ok_iff.mp htext)
  exact ⟨ts, lexical_of_tokens? htokens, parts_of_readQuery hquery⟩

theorem fromTokens_of_read {text : String} {query : Query} (h : read text = .ok query) :
    query.prologue.FromTokens := by
  obtain ⟨ts, hts, ⟨parts⟩⟩ := exists_parts_of_read h
  exact (parts.fromTokens hts).1

theorem reading_of_read {text : String} {query : Query} (h : read text = .ok query)
    (hlabels : ∀ entry ∈ query.prologue.prefixes.entries, PrefixMapping.IsPlainLabel entry.1) :
    query.Reading := by
  obtain ⟨ts, hts, ⟨parts⟩⟩ := exists_parts_of_read h
  exact parts.reading hts hlabels

/-- The dataset clauses of a query that was read, with windows, can be read again. -/
theorem Reading.sourceFits {query : Query} (h : query.Reading) {windows : List Window}
    (hwindows : ∀ window ∈ windows, window.Reading query.prologue.prefixes) :
    ∀ source ∈ query.body.dataset.map Sum.inl ++ windows.map Sum.inr,
      SourceFits query.prologue.prefixes source := by
  intro source hsource
  rcases List.mem_append.mp hsource with hsource | hsource
  · obtain ⟨clause, hclause, rfl⟩ := List.mem_map.mp hsource
    exact h.dataset clause hclause
  · obtain ⟨window, hwindow, rfl⟩ := List.mem_map.mp hsource
    exact hwindows window hwindow

end Query

end StreamQuery
