import StreamQuery.Proofs.Query.Result

/-! # Reading clauses and patterns

Behind the result of a query stand its dataset clauses and window declarations in any order, its
pattern and its solution modifiers. They are written with the dataset clauses first, and read again
from what is written.
-/

namespace StreamQuery

open Text Lexeme Token

/-- A token that names a graph. -/
def Token.IsGraph (token : Token) : Prop := ∃ text, token = .iri text ∨ token = .prefixed text

/-- The graph of a dataset clause. -/
def DatasetClause.graph : DatasetClause → Token
  | default graph => graph
  | named graph => graph

theorem DatasetClause.lexical_tokens {clause : DatasetClause} (h : clause.graph.Lexical) :
    ∀ t ∈ clause.tokens, t.Lexical := by
  have hfrom : (Token.word "FROM").Lexical := lexical_keyword (by decide)
  have hnamed : (Token.word "NAMED").Lexical := lexical_keyword (by decide)
  cases clause with
  | default graph =>
      exact List.forall_mem_cons.mpr ⟨hfrom, List.forall_mem_singleton.mpr h⟩
  | named graph =>
      exact List.forall_mem_cons.mpr ⟨hfrom,
        List.forall_mem_cons.mpr ⟨hnamed, List.forall_mem_singleton.mpr h⟩⟩

/-- The tokens of a dataset clause or of the declaration of a window. -/
def sourceTokens (prefixes : PrefixMapping) : DatasetClause ⊕ Window → List Token
  | .inl clause => clause.tokens
  | .inr window => .word "FROM" :: window.tokens prefixes

namespace QueryReader

variable {prefixes : PrefixMapping} {ts rest : List Token}

theorem baseClauses_skip (token : Token) (rest : List Token) :
    baseClauses prefixes true (token :: rest) =
      baseClauses prefixes (!token.isPunct "]") rest := by
  rw [baseClauses.eq_def]
  rfl

theorem baseClauses_window (h : Leaves ts (.punct "]" :: rest)) :
    baseClauses prefixes true ts = baseClauses prefixes false rest := by
  obtain ⟨used, rfl, hused⟩ := h
  induction used with
  | nil => exact baseClauses_skip _ _
  | cons token used ih =>
      obtain ⟨htoken, hused⟩ := List.forall_mem_cons.mp hused
      rw [List.cons_append, baseClauses_skip, Bool.eq_false_iff.mpr htoken]
      exact ih hused

theorem baseClauses_default {keyword graph : Token} (hkeyword : keyword.isWord "FROM")
    (hgraph : graph.isWord "NAMED" = false) :
    baseClauses prefixes false (keyword :: graph :: rest) =
      .word "FROM" :: graph :: baseClauses prefixes false rest := by
  rw [baseClauses.eq_def]
  dsimp only
  rw [if_neg nofun, if_pos hkeyword]
  cases rest with
  | nil => rfl
  | cons second others => simp [hgraph]

theorem baseClauses_named {keyword named graph : Token} (hkeyword : keyword.isWord "FROM")
    (hnamed : named.isWord "NAMED") (hgraph : graph.isWord "WINDOW" = false) :
    baseClauses prefixes false (keyword :: named :: graph :: rest) =
      .word "FROM" :: .word "NAMED" :: graph :: baseClauses prefixes false rest := by
  rw [baseClauses.eq_def]
  simp [hkeyword, hnamed, hgraph]

theorem baseClauses_declaration {keyword named window : Token} (hkeyword : keyword.isWord "FROM")
    (hnamed : named.isWord "NAMED") (hwindow : window.isWord "WINDOW") :
    baseClauses prefixes false (keyword :: named :: window :: ts) =
      baseClauses prefixes true ts := by
  rw [baseClauses.eq_def]
  simp [hkeyword, hnamed, hwindow]

theorem baseClauses_of_not (h : ∀ t ∈ ts.head?, ¬ t.isWord "FROM") :
    baseClauses prefixes false ts = basePattern prefixes ts := by
  cases ts with
  | nil => rfl
  | cons token rest =>
      rw [baseClauses.eq_def]
      dsimp only
      rw [if_neg nofun, if_neg (h token rfl)]

theorem eq_of_readGraph {graph : Token} (h : readGraph ts = .ok (graph, rest)) :
    ts = graph :: rest ∧ graph.IsGraph := by
  unfold readGraph at h
  split at h
  · next text others =>
    cases h
    exact ⟨rfl, text, .inl rfl⟩
  · next text others =>
    cases h
    exact ⟨rfl, text, .inr rfl⟩
  · cases h

theorem isWord_of_isGraph {graph : Token} (h : graph.IsGraph) (word : String) :
    graph.isWord word = false := by
  obtain ⟨text, rfl | rfl⟩ := h <;> rfl

/-- What a clause behind `FROM` is: a graph, or a window that can be declared again. -/
def SourceFits (prefixes : PrefixMapping) : DatasetClause ⊕ Window → Prop
  | .inl clause => clause.graph.IsGraph ∧ clause.graph.Lexical
  | .inr window => window.Reading prefixes

/-- The part of the base query in a clause. -/
def baseSource (source : DatasetClause ⊕ Window) : List Token :=
  source.getLeft?.toList.flatMap DatasetClause.tokens

theorem readGraph_of_isGraph {graph : Token} (h : graph.IsGraph) (rest : List Token) :
    readGraph (graph :: rest) = .ok (graph, rest) := by
  obtain ⟨text, rfl | rfl⟩ := h <;> rfl

/-- How a clause is read behind `FROM`. -/
inductive SourceReading (prefixes : PrefixMapping) :
    List Token → DatasetClause ⊕ Window → List Token → Prop
  | default {graph : Token} {rest : List Token} (hgraph : graph.IsGraph) :
      SourceReading prefixes (graph :: rest) (.inl (.default graph)) rest
  | named {named graph : Token} {rest : List Token} (hnamed : named.isWord "NAMED")
      (hgraph : graph.IsGraph) :
      SourceReading prefixes (named :: graph :: rest) (.inl (.named graph)) rest
  | window {named keyword : Token} {ts rest : List Token} {window : Window}
      (hnamed : named.isWord "NAMED") (hkeyword : keyword.isWord "WINDOW")
      (hwindow : readWindow prefixes ts = .ok (window, rest)) :
      SourceReading prefixes (named :: keyword :: ts) (.inr window) rest

theorem readFrom_eq_ok_iff {source : DatasetClause ⊕ Window} :
    readFrom prefixes ts = .ok (source, rest) ↔ SourceReading prefixes ts source rest := by
  constructor
  · intro h
    cases ts with
    | nil => cases h
    | cons named ts =>
        unfold readFrom at h
        dsimp only at h
        split at h
        · next hnamed =>
          split at h
          · next keyword others =>
            split at h
            · next hkeyword =>
              obtain ⟨⟨window, last⟩, hwindow, heq⟩ := bind_eq_ok_iff.mp h
              cases heq
              exact .window hnamed hkeyword hwindow
            · next hkeyword =>
              obtain ⟨⟨graph, last⟩, hread, heq⟩ := bind_eq_ok_iff.mp h
              cases heq
              obtain ⟨htokens, hgraph⟩ := eq_of_readGraph hread
              cases htokens
              exact .named hnamed hgraph
          · cases h
        · next hnamed =>
          obtain ⟨⟨graph, last⟩, hread, heq⟩ := bind_eq_ok_iff.mp h
          cases heq
          obtain ⟨htokens, hgraph⟩ := eq_of_readGraph hread
          cases htokens
          exact .default hgraph
  · intro h
    cases h with
    | default hgraph =>
        rw [readFrom.eq_def]
        dsimp only
        rw [isWord_of_isGraph hgraph]
        exact bind_eq_ok_iff.mpr ⟨_, readGraph_of_isGraph hgraph rest, rfl⟩
    | named hnamed hgraph =>
        rw [readFrom, if_pos hnamed]
        dsimp only
        rw [isWord_of_isGraph hgraph]
        exact bind_eq_ok_iff.mpr ⟨_, readGraph_of_isGraph hgraph rest, rfl⟩
    | window hnamed hkeyword hwindow =>
        rw [readFrom, if_pos hnamed]
        dsimp only
        rw [if_pos hkeyword]
        exact bind_eq_ok_iff.mpr ⟨_, hwindow, rfl⟩

theorem SourceReading.spec {keyword : Token} {source : DatasetClause ⊕ Window}
    (h : SourceReading prefixes ts source rest) (hprefixes : prefixes.Declared)
    (hkeyword : keyword.isWord "FROM") (hts : ∀ t ∈ ts, t.Lexical) :
    SourceFits prefixes source ∧ rest <:+ ts ∧
      baseClauses prefixes false (keyword :: ts) =
        baseSource source ++ baseClauses prefixes false rest := by
  cases h with
  | @default graph _ hgraph =>
      refine ⟨⟨hgraph, hts _ List.mem_cons_self⟩, ⟨[graph], rfl⟩, ?_⟩
      rw [baseClauses_default hkeyword (isWord_of_isGraph hgraph _)]
      rfl
  | @named named graph _ hnamed hgraph =>
      simp only [List.forall_mem_cons] at hts
      refine ⟨⟨hgraph, hts.2.1⟩, ⟨[named, graph], rfl⟩, ?_⟩
      rw [baseClauses_named hkeyword hnamed (isWord_of_isGraph hgraph _)]
      rfl
  | @window named window ts _ _ hnamed hwindow hread =>
      simp only [List.forall_mem_cons] at hts
      obtain ⟨hfits, hleaves⟩ := reading_of_readWindow hprefixes hread hts.2.2
      refine ⟨hfits, ?_, ?_⟩
      · obtain ⟨used, rfl, -⟩ := hleaves
        exact ⟨named :: window :: (used ++ [.punct "]"]), by simp⟩
      · rw [baseClauses_declaration hkeyword hnamed hwindow, baseClauses_window hleaves]
        rfl

/-- How clauses are read, one after another. -/
inductive SourcesReading (prefixes : PrefixMapping) :
    List Token → List (DatasetClause ⊕ Window) → List Token → Prop
  | nil {ts : List Token} (hts : ∀ t ∈ ts.head?, ¬ t.isWord "FROM") : SourcesReading prefixes ts [] ts
  | cons {keyword : Token} {ts others rest : List Token} {source : DatasetClause ⊕ Window}
      {sources : List (DatasetClause ⊕ Window)} (hkeyword : keyword.isWord "FROM")
      (hsource : SourceReading prefixes ts source others)
      (hsources : SourcesReading prefixes others sources rest) :
      SourcesReading prefixes (keyword :: ts) (source :: sources) rest

theorem SourceReading.behind {keyword : Token} {others : List Token}
    {source : DatasetClause ⊕ Window} (h : SourceReading prefixes ts source others)
    (hprefixes : prefixes.Declared) (hkeyword : keyword.isWord "FROM")
    (hts : ∀ t ∈ keyword :: ts, t.Lexical) :
    (∀ t ∈ others, t.Lexical) ∧ others.length ≤ ts.length := by
  obtain ⟨-, htail⟩ := List.forall_mem_cons.mp hts
  obtain ⟨-, hsuffix, -⟩ := h.spec hprefixes hkeyword htail
  exact ⟨fun t ht => htail t (hsuffix.subset ht), hsuffix.length_le⟩

theorem sourcesReading_of_readSources {bound : Nat} {sources : List (DatasetClause ⊕ Window)}
    (hprefixes : prefixes.Declared) (hts : ∀ t ∈ ts, t.Lexical) (hbound : ts.length ≤ bound)
    (h : readSources prefixes bound ts = .ok (sources, rest)) :
    SourcesReading prefixes ts sources rest := by
  induction bound generalizing ts sources with
  | zero =>
      obtain rfl := List.eq_nil_of_length_eq_zero (Nat.le_zero.mp hbound)
      cases h
      exact .nil nofun
  | succ bound ih =>
      cases ts with
      | nil =>
          cases h
          exact .nil nofun
      | cons keyword ts =>
          unfold readSources at h
          split at h
          · next hkeyword =>
            obtain ⟨⟨source, others⟩, hsource, h⟩ := bind_eq_ok_iff.mp h
            obtain ⟨⟨sources, last⟩, hsources, heq⟩ := bind_eq_ok_iff.mp h
            cases heq
            rw [readFrom_eq_ok_iff] at hsource
            obtain ⟨hothers, hlength⟩ := hsource.behind hprefixes hkeyword hts
            rw [List.length_cons] at hbound
            exact .cons hkeyword hsource (ih hothers (by omega) hsources)
          · next hkeyword =>
            cases h
            refine .nil ?_
            rintro _ ⟨⟩
            exact hkeyword

theorem SourcesReading.readSources {bound : Nat} {sources : List (DatasetClause ⊕ Window)}
    (h : SourcesReading prefixes ts sources rest) (hprefixes : prefixes.Declared)
    (hts : ∀ t ∈ ts, t.Lexical) (hbound : ts.length ≤ bound) :
    readSources prefixes bound ts = .ok (sources, rest) := by
  induction h generalizing bound with
  | @nil ts hfrom =>
      cases bound with
      | zero => rfl
      | succ bound =>
          cases ts with
          | nil => rfl
          | cons t ts => exact if_neg (hfrom t rfl)
  | cons hkeyword hsource _ ih =>
      obtain ⟨hothers, hlength⟩ := hsource.behind hprefixes hkeyword hts
      rw [List.length_cons] at hbound
      obtain ⟨bound, rfl⟩ := Nat.exists_eq_succ_of_ne_zero (n := bound) (by omega)
      rw [QueryReader.readSources, if_pos hkeyword]
      exact bind_eq_ok_iff.mpr ⟨_, readFrom_eq_ok_iff.mpr hsource,
        bind_eq_ok_iff.mpr ⟨_, ih hothers (by omega), rfl⟩⟩

/-- Every clause takes a token away, so the bound is never what ends the reading. -/
theorem readSources_eq_ok_iff {bound : Nat} {sources : List (DatasetClause ⊕ Window)}
    (hprefixes : prefixes.Declared) (hts : ∀ t ∈ ts, t.Lexical) (hbound : ts.length ≤ bound) :
    readSources prefixes bound ts = .ok (sources, rest) ↔ SourcesReading prefixes ts sources rest :=
  ⟨sourcesReading_of_readSources hprefixes hts hbound, fun h => h.readSources hprefixes hts hbound⟩

/-- Clauses that are read: what they are, what is left behind them, and their part of the base
query. -/
theorem SourcesReading.spec {sources : List (DatasetClause ⊕ Window)}
    (h : SourcesReading prefixes ts sources rest) (hprefixes : prefixes.Declared)
    (hts : ∀ t ∈ ts, t.Lexical) :
    (∀ source ∈ sources, SourceFits prefixes source) ∧ rest <:+ ts ∧
      (∀ t ∈ rest.head?, ¬ t.isWord "FROM") ∧
      (sources = [] → rest = ts) ∧
      baseClauses prefixes false ts = sources.flatMap baseSource ++ basePattern prefixes rest := by
  induction h with
  | nil hfrom =>
      exact ⟨List.forall_mem_nil _, List.suffix_rfl, hfrom, fun _ => rfl, baseClauses_of_not hfrom⟩
  | cons hkeyword hsource _ ih =>
      obtain ⟨-, htail⟩ := List.forall_mem_cons.mp hts
      obtain ⟨hfits, hsuffix, hbase⟩ := hsource.spec hprefixes hkeyword htail
      obtain ⟨hall, hsuffix', hhead, -, hrest⟩ := ih fun t ht => htail t (hsuffix.subset ht)
      refine ⟨List.forall_mem_cons.mpr ⟨hfits, hall⟩,
        (hsuffix'.trans hsuffix).trans (List.suffix_cons _ _), hhead, nofun, ?_⟩
      rw [hbase, hrest, List.flatMap_cons, List.append_assoc]

theorem readFrom_tokens {source : DatasetClause ⊕ Window} (h : SourceFits prefixes source)
    (hbare : ∀ window, source = .inr window → window.IsBare) (rest : List Token) :
    ∃ tail, sourceTokens prefixes source = .word "FROM" :: tail ∧
      readFrom prefixes (tail ++ rest) = .ok (source, rest) := by
  cases source with
  | inl clause =>
      have hgraph : clause.graph.IsGraph := h.1
      cases clause with
      | default graph => exact ⟨[graph], rfl, readFrom_eq_ok_iff.mpr (.default hgraph)⟩
      | named graph =>
          exact ⟨[.word "NAMED", graph], rfl, readFrom_eq_ok_iff.mpr (.named (by decide) hgraph)⟩
  | inr window => exact ⟨_, rfl, readFrom_of_fits (h.fits (hbare window rfl)) rest⟩

/-- Clauses are read from their tokens. -/
theorem readSources_tokens {sources : List (DatasetClause ⊕ Window)}
    (h : ∀ source ∈ sources, SourceFits prefixes source)
    (hbare : ∀ window, .inr window ∈ sources → window.IsBare)
    (hrest : ∀ t ∈ rest.head?, ¬ t.isWord "FROM") {bound : Nat}
    (hbound : (sources.flatMap (sourceTokens prefixes) ++ rest).length ≤ bound) :
    readSources prefixes bound (sources.flatMap (sourceTokens prefixes) ++ rest) =
      .ok (sources, rest) := by
  induction sources generalizing bound with
  | nil =>
      cases rest with
      | nil => cases bound <;> rfl
      | cons token rest =>
          obtain ⟨bound, rfl⟩ := Nat.exists_eq_succ_of_ne_zero (n := bound)
            (by simp only [List.flatMap_nil, List.nil_append, List.length_cons] at hbound; omega)
          rw [List.flatMap_nil, List.nil_append, readSources, if_neg (hrest token rfl)]
  | cons source sources ih =>
      obtain ⟨hsource, hsources⟩ := List.forall_mem_cons.mp h
      obtain ⟨tail, htokens, hread⟩ := readFrom_tokens hsource
        (fun window heq => hbare window (heq ▸ List.mem_cons_self))
        (sources.flatMap (sourceTokens prefixes) ++ rest)
      rw [List.flatMap_cons, htokens, List.append_assoc, List.cons_append] at hbound ⊢
      simp only [List.length_cons, List.length_append] at hbound
      obtain ⟨bound, rfl⟩ := Nat.exists_eq_succ_of_ne_zero (n := bound) (by omega)
      rw [readSources, if_pos (by decide)]
      refine bind_eq_ok_iff.mpr ⟨_, hread, bind_eq_ok_iff.mpr ⟨_, ih hsources
        (fun window hmem => hbare window (List.mem_cons_of_mem _ hmem)) ?_, rfl⟩⟩
      rw [List.length_append]
      omega

/-! ### Patterns -/

/-- How a pattern is read, if there is one. -/
inductive PatternReading (prefixes : PrefixMapping) :
    List Token → Option Pattern → List Token → Prop
  | missing {ts : List Token} (hwhere : ∀ t ∈ ts.head?, ¬ t.isWord "WHERE")
      (hopen : ∀ t ∈ ts.head?, ¬ t.isPunct "\x7b") : PatternReading prefixes ts none ts
  | group {ts rest : List Token} {p : Pattern}
      (h : GroupReading prefixes p rest (.start none) [] ts) :
      PatternReading prefixes (.punct "\x7b" :: ts) (some p) rest
  | whereGroup {keyword : Token} {ts rest : List Token} {p : Pattern}
      (hkeyword : keyword.isWord "WHERE") (h : GroupReading prefixes p rest (.start none) [] ts) :
      PatternReading prefixes (keyword :: .punct "\x7b" :: ts) (some p) rest

theorem readPattern_spec {hasWhere : Bool} {pattern : Option Pattern}
    (h : readPattern prefixes ts = .ok (hasWhere, pattern, rest)) :
    PatternReading prefixes ts pattern rest := by
  cases ts with
  | nil =>
      cases h
      exact .missing nofun nofun
  | cons token ts =>
      by_cases hwhere : token.isWord "WHERE"
      · have hskip : skipWord "WHERE" (token :: ts) = ts := if_pos hwhere
        unfold readPattern at h
        dsimp only at h
        rw [hskip, List.head?_cons, Option.any_some, hwhere, Bool.true_or, if_pos rfl] at h
        obtain ⟨others, hopening, h⟩ := bind_eq_ok_iff.mp h
        obtain ⟨⟨p, last⟩, hgroup, heq⟩ := bind_eq_ok_iff.mp h
        cases heq
        obtain rfl := eq_of_expectPunct hopening
        exact .whereGroup hwhere (.of_readGroup hgroup)
      · have hskip : skipWord "WHERE" (token :: ts) = token :: ts := if_neg hwhere
        unfold readPattern at h
        dsimp only at h
        rw [hskip, List.head?_cons, Option.any_some, Option.any_some, Bool.eq_false_iff.mpr hwhere,
          Bool.false_or] at h
        split at h
        · obtain ⟨others, hopening, h⟩ := bind_eq_ok_iff.mp h
          obtain ⟨⟨p, last⟩, hgroup, heq⟩ := bind_eq_ok_iff.mp h
          cases heq
          rw [eq_of_expectPunct hopening]
          exact .group (.of_readGroup hgroup)
        · next hopen =>
          cases h
          refine .missing ?_ ?_
          · rintro _ ⟨⟩
            exact hwhere
          · rintro _ ⟨⟩
            exact hopen

theorem PatternReading.eq_of_missing (h : PatternReading prefixes ts none rest) :
    ts = rest ∧ (∀ t ∈ rest.head?, ¬ t.isWord "WHERE") ∧
      ∀ t ∈ rest.head?, ¬ t.isPunct "\x7b" := by
  cases h with
  | missing hwhere hopen => exact ⟨rfl, hwhere, hopen⟩

/-- The tokens of a pattern with `WHERE` in front. -/
def patternTokens (keyword : String) (prefixes : PrefixMapping) (pattern : Option Pattern) :
    List Token :=
  pattern.toList.flatMap fun pattern =>
    .word "WHERE" :: (.punct "\x7b" :: pattern.tokens keyword prefixes ++ [.punct "\x7d"])

theorem PatternReading.basePattern_eq {pattern : Option Pattern}
    (h : PatternReading prefixes ts pattern rest) :
    basePattern prefixes ts = patternTokens "GRAPH" prefixes pattern ++ rest := by
  cases h with
  | missing hwhere hopen =>
      cases ts with
      | nil => rfl
      | cons token ts =>
          rw [basePattern, if_neg (hwhere token rfl), if_neg (hopen token rfl)]
          rfl
  | group hgroup =>
      rw [basePattern, if_neg nofun, if_pos (by decide), hgroup.relabel_eq]
      simp [patternTokens]
  | whereGroup hkeyword hgroup =>
      rw [basePattern, if_pos hkeyword, List.head?_cons, List.tail_cons, hgroup.relabel_eq]
      simp [patternTokens]

/-- A pattern is read from its tokens. -/
theorem PatternReading.readPattern_tokens {pattern : Option Pattern} (hprefixes : prefixes.Declared)
    (h : PatternReading prefixes ts pattern rest) :
    readPattern prefixes (patternTokens "WINDOW" prefixes pattern ++ rest) =
      .ok (pattern.isSome, pattern, rest) := by
  have hsome : ∀ {ts : List Token} {p : Pattern},
      GroupReading prefixes p rest (.start none) [] ts →
        readPattern prefixes (patternTokens "WINDOW" prefixes (some p) ++ rest) =
          .ok (true, some p, rest) := by
    intro ts p hgroup
    have hagain := hgroup.readGroup_tokens fun _ _ => resolve_nameToken hprefixes.plain
    have htokens : patternTokens "WINDOW" prefixes (some p) ++ rest = .word "WHERE" ::
        .punct "\x7b" :: (p.tokens "WINDOW" prefixes ++ .punct "\x7d" :: rest) := by
      simp [patternTokens]
    rw [htokens]
    exact bind_eq_ok_iff.mpr ⟨_, rfl, bind_eq_ok_iff.mpr ⟨_, hagain, rfl⟩⟩
  cases h with
  | missing hwhere hopen =>
      cases ts with
      | nil => rfl
      | cons token ts =>
          have hskip : skipWord "WHERE" (token :: ts) = token :: ts := if_neg (hwhere token rfl)
          show readPattern prefixes (token :: ts) = .ok (false, none, token :: ts)
          unfold readPattern
          dsimp only
          rw [hskip, List.head?_cons, Option.any_some, Option.any_some,
            Bool.eq_false_iff.mpr (hwhere token rfl), Bool.eq_false_iff.mpr (hopen token rfl)]
          rfl
  | group hgroup => exact hsome hgroup
  | whereGroup hkeyword hgroup => exact hsome hgroup

theorem graph_mem : "GRAPH" ∈ keywords := by decide

/-- The tokens of a pattern that was read are tokens. -/
theorem PatternReading.lexical {pattern : Option Pattern} (hprefixes : prefixes.Declared)
    (h : PatternReading prefixes ts pattern rest) (hts : ∀ t ∈ ts, t.Lexical) :
    (∀ p ∈ pattern, ∀ keyword ∈ keywords, ∀ t ∈ p.tokens keyword prefixes, t.Lexical) ∧
      ∀ t ∈ rest, t.Lexical := by
  cases h with
  | missing => exact ⟨nofun, hts⟩
  | group hgroup =>
      have htail := (List.forall_mem_cons.mp hts).2
      refine ⟨?_, (hgroup.lexical (lexical_keyword graph_mem) hprefixes htail).2⟩
      rintro _ ⟨⟩ keyword hkeyword
      exact (hgroup.lexical (lexical_keyword hkeyword) hprefixes htail).1
  | whereGroup hword hgroup =>
      have htail := (List.forall_mem_cons.mp (List.forall_mem_cons.mp hts).2).2
      refine ⟨?_, (hgroup.lexical (lexical_keyword graph_mem) hprefixes htail).2⟩
      rintro _ ⟨⟩ keyword hkeyword
      exact (hgroup.lexical (lexical_keyword hkeyword) hprefixes htail).1

end QueryReader

end StreamQuery
