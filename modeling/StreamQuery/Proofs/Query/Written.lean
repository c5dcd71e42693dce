import StreamQuery.Proofs.Query.Group
import StreamQuery.Proofs.Query.Window

/-! # The tokens of a written query

Every part of a query is written as a list of tokens. A text that is laid out in lines is split into
exactly these tokens if each of them is a token of some text, and if no run of tokens holds one of
the two sequences that run together.
-/

namespace StreamQuery

open Text Lexeme Token

/-! ### Declarations and registration -/

/-- The tokens of declarations. -/
def Prologue.tokens (prologue : Prologue) : List Token :=
  (prologue.base.toList.flatMap fun base => [.word "BASE", .iri base]) ++
    prologue.prefixes.entries.flatMap fun (label, space) =>
      [.word "PREFIX", .prefixed (label ++ ":"), .iri space]

/-- Declarations that can be written: an IRI in angle brackets as the base, and labels that no colon
is in. -/
structure Prologue.Declared (prologue : Prologue) : Prop where
  base : ∀ base ∈ prologue.base, ∀ c ∈ base.toList, isIriChar c
  prefixes : prologue.prefixes.Declared

theorem Prologue.written {prologue : Prologue} (h : prologue.Declared) :
    Written prologue.marks prologue.tokens := by
  have hbase : Written (prologue.base.toList.flatMap fun base => Mark.line s!"BASE <{base}>")
      (prologue.base.toList.flatMap fun base => [.word "BASE", .iri base]) := by
    refine .flatMap _ fun base hmem => .line ?_
    have hiri : (Token.iri base).Lexical := .of_iri_chars (h.base base (by simpa using hmem))
    simpa [toString, String.toList_append, Token.text] using
      Reads.keyword "BASE" (by decide) (.token hiri)
  have hentries : Written
      (prologue.prefixes.entries.flatMap fun entry =>
        Mark.line s!"PREFIX {entry.1}: <{entry.2}>")
      (prologue.prefixes.entries.flatMap fun entry =>
        [.word "PREFIX", .prefixed (entry.1 ++ ":"), .iri entry.2]) := by
    refine .flatMap _ fun entry hmem => .line ?_
    have hlabel := (h.prefixes.labels entry hmem).lexical
    have hspace : (Token.iri entry.2).Lexical := .of_iri_chars (h.prefixes.spaces entry hmem)
    simpa [toString, String.toList_append, Token.text] using
      Reads.keyword "PREFIX" (by decide) ((Reads.token hlabel).append (.token hspace))
  have hend : Written (if prologue.isEmpty then [] else [.blankLine]) [] := by
    split
    · exact .nil
    · exact .layout (by simp) .nil
  have hall := hbase.append (hentries.append hend)
  rw [List.append_nil, ← List.append_assoc] at hall
  exact hall

/-- The keyword behind `REGISTER`: that of the operator where the result cannot hold it. -/
def Query.registerKeyword (query : Query) : String :=
  if query.resultHasOperator then "STREAM" else query.operator.keyword?.getD "STREAM"

/-- The tokens of a registration. -/
def Query.registerTokens (query : Query) : List Token :=
  query.output.toList.flatMap fun stream =>
    [.word "REGISTER", .word query.registerKeyword, stream.nameToken query.prologue.prefixes,
      .word "AS"]

theorem keyword?_mem {operator : OutputOperator} {word : String}
    (h : operator.keyword? = some word) : word ∈ ["ISTREAM", "DSTREAM", "RSTREAM"] := by
  cases operator <;> cases h <;> decide

theorem Query.registerKeyword_mem (query : Query) : query.registerKeyword ∈ keywords := by
  unfold registerKeyword
  split
  · decide
  · cases query.operator <;> decide

theorem Query.written_register {query : Query}
    (h : ∀ stream ∈ query.output, (stream.nameToken query.prologue.prefixes).Lexical) :
    Written query.registerMarks query.registerTokens := by
  unfold registerMarks registerTokens
  cases houtput : query.output with
  | none => exact .nil
  | some stream =>
      have hstream : Reads (stream.queryText query.prologue.prefixes).toList
          [stream.nameToken query.prologue.prefixes] := by
        rw [← Term.text_nameToken]
        exact .token (h stream houtput)
      have hline := Reads.keyword "REGISTER" (by decide) (.keyword _ query.registerKeyword_mem
        (hstream.append (.token (t := .word "AS") (lexical_keyword (by decide)))))
      refine Written.line ?_
      simpa [String.toList_append, Token.text, registerKeyword] using hline

/-! ### Results and graphs -/

/-- The tokens of what a query answers with. -/
def ResultForm.tokens (operator : Option String) : ResultForm → List Token
  | select modifier projection =>
    .word "SELECT" :: operator.toList.map Token.word ++ modifier.toList ++ projection
  | construct template =>
    .word "CONSTRUCT" :: operator.toList.map Token.word ++
      template.toList.flatMap fun ts => .punct "\x7b" :: ts ++ [.punct "\x7d"]
  | ask => [.word "ASK"]
  | describe targets => .word "DESCRIBE" :: targets

/-- The runs of tokens that a form of result holds. -/
def ResultForm.runs : ResultForm → List (List Token)
  | select _ projection => [projection]
  | construct template => template.toList
  | ask => []
  | describe targets => [targets]

theorem written_operator {operator : Option String} (h : ∀ word ∈ operator, word ∈ keywords) :
    Written (operator.toList.map Mark.word) (operator.toList.map Token.word) := by
  cases operator with
  | none => exact .nil
  | some word => exact .keyword word (h word rfl) .nil

theorem ResultForm.written {form : ResultForm} {operator : Option String}
    (hoperator : ∀ word ∈ operator, word ∈ keywords)
    (hlexical : ∀ t ∈ form.tokens none, t.Lexical) (hruns : ∀ ts ∈ form.runs, Separable ts) :
    Written (form.marks operator) (form.tokens operator) := by
  cases form with
  | select modifier projection =>
      obtain ⟨hhead, hprojection⟩ := List.forall_mem_append.mp hlexical
      have hmodifier : ∀ token ∈ modifier.toList, token.Lexical := fun token htoken =>
        hhead token (List.mem_append_right _ htoken)
      have hword : Written (modifier.toList.map fun token => Mark.word token.text)
          modifier.toList := by
        cases modifier with
        | none => exact .nil
        | some token => exact .word (.token (hmodifier token (by simp))) .nil
      have hjoin := Reads.join hprojection (hruns projection (by simp [runs]))
      have hresult := Written.keyword "SELECT" (by decide)
        (((written_operator hoperator).append hword).append (.word hjoin .nil))
      simpa [marks, tokens] using hresult
  | construct template =>
      have htemplate : Written
          (template.toList.flatMap fun tokens => Mark.braces (Mark.tokens tokens))
          (template.toList.flatMap fun ts => .punct "\x7b" :: ts ++ [.punct "\x7d"]) := by
        refine .flatMap _ fun ts hts => (Mark.written_tokens (fun t ht => ?_) (hruns ts hts)).braces
        refine hlexical t (List.mem_append_right _ (List.mem_flatMap.mpr ⟨ts, hts, ?_⟩))
        simp [ht]
      have hresult := Written.keyword "CONSTRUCT" (by decide)
        ((written_operator hoperator).append htemplate)
      simpa [marks, tokens] using hresult
  | ask => exact .keyword "ASK" (by decide) .nil
  | describe targets =>
      obtain ⟨-, htargets⟩ := List.forall_mem_cons.mp hlexical
      have hjoin := Reads.join htargets (hruns targets (by simp [runs]))
      have hresult := Written.keyword "DESCRIBE" (by decide) (.word hjoin .nil)
      simpa [marks, tokens] using hresult

/-- The tokens of a dataset clause. -/
def DatasetClause.tokens : DatasetClause → List Token
  | default graph => [.word "FROM", graph]
  | named graph => [.word "FROM", .word "NAMED", graph]

theorem DatasetClause.written {clause : DatasetClause} (h : ∀ t ∈ clause.tokens, t.Lexical) :
    Written clause.marks clause.tokens := by
  cases clause with
  | default graph =>
      refine Written.line ?_
      have hgraph : graph.Lexical := h graph (by simp [tokens])
      simpa [toString, tokens, String.toList_append, Token.text] using
        Reads.keyword "FROM" (by decide) (.token hgraph)
  | named graph =>
      refine Written.line ?_
      have hgraph : graph.Lexical := h graph (by simp [tokens])
      simpa [toString, tokens, String.toList_append, Token.text] using
        Reads.keyword "FROM" (by decide) (.keyword "NAMED" (by decide) (.token hgraph))

/-! ### Bodies -/

namespace QueryBody

/-- The tokens of a body, with the keyword of an operator, with clauses behind the dataset clauses
and with a keyword in front of window blocks. -/
def tokens (operator : Option String) (clauses : List Token) (keyword : String)
    (prefixes : PrefixMapping) (body : QueryBody) : List Token :=
  body.form.tokens operator ++ (body.dataset.flatMap DatasetClause.tokens ++ (clauses ++
    ((body.pattern.toList.flatMap fun pattern =>
      .word "WHERE" :: (.punct "\x7b" :: pattern.tokens keyword prefixes ++ [.punct "\x7d"])) ++
      body.modifiers)))

/-- The runs of tokens that a body holds. -/
def runs (body : QueryBody) : List (List Token) :=
  body.form.runs ++ body.pattern.toList.flatMap Pattern.runs ++ [body.modifiers]

/-- A body of tokens that a text can be split into. -/
structure Lexical (prefixes : PrefixMapping) (body : QueryBody) : Prop where
  form : ∀ t ∈ body.form.tokens none, t.Lexical
  dataset : ∀ clause ∈ body.dataset, ∀ t ∈ clause.tokens, t.Lexical
  pattern : ∀ pattern ∈ body.pattern, ∀ keyword ∈ keywords,
    ∀ t ∈ pattern.tokens keyword prefixes, t.Lexical
  modifiers : ∀ t ∈ body.modifiers, t.Lexical

/-- The tokens of a body, with the keyword of an operator, with clauses behind the dataset clauses and
with given tokens in front of window blocks. -/
def headedTokens (operator : Option String) (clauses : List Token) (opening : Term → List Token)
    (body : QueryBody) : List Token :=
  body.form.tokens operator ++ (body.dataset.flatMap DatasetClause.tokens ++ (clauses ++
    ((body.pattern.toList.flatMap fun pattern =>
      .word "WHERE" :: (.punct "\x7b" :: pattern.headedTokens opening ++ [.punct "\x7d"])) ++
      body.modifiers)))

/-- A body whose parts are tokens that a text can be split into, whatever stands in front of window
blocks. -/
structure Spoken (body : QueryBody) : Prop where
  form : ∀ t ∈ body.form.tokens none, t.Lexical
  dataset : ∀ clause ∈ body.dataset, ∀ t ∈ clause.tokens, t.Lexical
  pattern : ∀ pattern ∈ body.pattern, ∀ ts ∈ pattern.runs, ∀ t ∈ ts, t.Lexical
  modifiers : ∀ t ∈ body.modifiers, t.Lexical
  runs : ∀ ts ∈ body.runs, Separable ts

variable {body : QueryBody} {prefixes : PrefixMapping} {keyword : String} {clauses : List Token}
  {opening : Term → List Token}

theorem headedTokens_eq (operator : Option String) (clauses : List Token) (keyword : String)
    (prefixes : PrefixMapping) (body : QueryBody) :
    body.headedTokens operator clauses (fun name => [.word keyword, name.nameToken prefixes]) =
      body.tokens operator clauses keyword prefixes := by
  simp only [headedTokens, tokens, Pattern.headedTokens_eq]

theorem Lexical.spoken (h : body.Lexical prefixes) (hruns : ∀ ts ∈ body.runs, Separable ts) :
    body.Spoken where
  form := h.form
  dataset := h.dataset
  pattern pattern hpattern ts hts t ht :=
    h.pattern pattern hpattern "WINDOW" (by decide) t (Pattern.runs_subset hts t ht)
  modifiers := h.modifiers
  runs := hruns

theorem written_pattern {header : Term → Option String} (h : body.Spoken)
    (hheader : ∀ pattern ∈ body.pattern, ∀ name ∈ pattern.windowNames,
      Written ((header name).toList.map Mark.word) (opening name)) :
    Written
      (body.pattern.toList.flatMap fun pattern =>
        .word "WHERE" :: Mark.braces (pattern.marks header) ++ [.newline])
      (body.pattern.toList.flatMap fun pattern =>
        .word "WHERE" :: (.punct "\x7b" :: pattern.headedTokens opening ++ [.punct "\x7d"])) := by
  refine .flatMap _ fun pattern hmem => ?_
  have hpatternruns : ∀ ts ∈ pattern.runs, Separable ts := fun ts hts =>
    h.runs ts (List.mem_append_left _ (List.mem_append_right _
      (List.mem_flatMap.mpr ⟨pattern, hmem, hts⟩)))
  have hbody := Option.mem_toList.mp hmem
  have hpattern := Pattern.written_headed (h.pattern pattern hbody) hpatternruns (hheader pattern hbody)
  have hwhere := Written.keyword "WHERE" (by decide) (hpattern.braces.append (.newline .nil))
  simpa using hwhere

theorem written_modifiers (h : body.Spoken) :
    Written (if body.modifiers.isEmpty then [] else Mark.tokens body.modifiers ++ [.newline])
      body.modifiers := by
  split
  · next hempty =>
    rw [List.isEmpty_iff.mp hempty]
    exact .nil
  · have hmodifiers := Mark.written_tokens h.modifiers (h.runs body.modifiers (by simp [runs]))
    simpa using hmodifiers.append (.newline .nil)

/-- A body is written with its tokens, and with those of the headers of its window blocks. -/
theorem written_headed {layout : BodyLayout} (h : body.Spoken)
    (hheader : ∀ pattern ∈ body.pattern, ∀ name ∈ pattern.windowNames,
      Written ((layout.header name).toList.map Mark.word) (opening name))
    (hoperator : ∀ word ∈ layout.operator, word ∈ keywords)
    (hclauses : Written (layout.clauses.flatMap Mark.line) clauses) :
    Written (body.marks layout) (body.headedTokens layout.operator clauses opening) := by
  have hform := ResultForm.written hoperator h.form fun ts hts =>
    h.runs ts (List.mem_append_left _ (List.mem_append_left _ hts))
  have hdataset : Written (body.dataset.flatMap DatasetClause.marks)
      (body.dataset.flatMap DatasetClause.tokens) :=
    .flatMap _ fun clause hclause => DatasetClause.written (h.dataset clause hclause)
  have hbody := hform.append (hdataset.append (hclauses.append
    ((written_pattern h hheader).append (written_modifiers h)))).newline
  simpa [marks, headedTokens] using hbody

/-- A body is written with its tokens. -/
theorem written {layout : BodyLayout} (h : body.Lexical prefixes)
    (hruns : ∀ ts ∈ body.runs, Separable ts) (hkeyword : keyword ∈ keywords)
    (hheader : ∀ name, layout.header name = some (keyword ++ " " ++ name.queryText prefixes))
    (hoperator : ∀ word ∈ layout.operator, word ∈ keywords)
    (hclauses : Written (layout.clauses.flatMap Mark.line) clauses) :
    Written (body.marks layout) (body.tokens layout.operator clauses keyword prefixes) := by
  rw [← headedTokens_eq]
  refine written_headed (h.spoken hruns) (fun pattern hpattern name hname => ?_) hoperator hclauses
  rw [hheader]
  exact Pattern.written_header (h.pattern pattern hpattern keyword hkeyword) hname

end QueryBody

/-! ### Queries -/

namespace Query

/-- The keyword of the operator in the result of a query. -/
def resultKeyword (query : Query) : Option String :=
  if query.resultHasOperator then query.operator.keyword? else none

/-- The tokens of the text of a query. -/
def nativeTokens (query : Query) : List Token :=
  query.prologue.tokens ++ (query.registerTokens ++ query.body.tokens query.resultKeyword
    (query.windows.flatMap fun window => .word "FROM" :: window.tokens query.prologue.prefixes)
      "WINDOW" query.prologue.prefixes)

/-- The tokens of the query of the base language. -/
def plainTokens (query : Query) : List Token :=
  query.prologue.tokens ++ query.body.tokens none [] "GRAPH" query.prologue.prefixes

theorem resultKeyword_mem {query : Query} : ∀ word ∈ query.resultKeyword, word ∈ keywords := by
  intro word hword
  unfold resultKeyword at hword
  split at hword
  · cases hoperator : query.operator <;> rw [hoperator] at hword <;> cases hword <;> decide
  · cases hword

/-- The text of a query is split into the tokens of its parts. -/
theorem tokens?_nativeText {query : Query} (hprologue : query.prologue.Declared)
    (houtput : ∀ stream ∈ query.output, (stream.nameToken query.prologue.prefixes).Lexical)
    (hwindows : ∀ window ∈ query.windows, window.Fits query.prologue.prefixes)
    (hbody : query.body.Lexical query.prologue.prefixes)
    (hruns : ∀ ts ∈ query.body.runs, Separable ts) :
    Token.tokens? query.nativeText.toList = some query.nativeTokens := by
  have hclauses : Written ((query.windows.map (Window.clause query.prologue.prefixes)).flatMap
      Mark.line) (query.windows.flatMap fun window =>
        .word "FROM" :: window.tokens query.prologue.prefixes) := by
    rw [List.flatMap_map]
    exact .flatMap _ fun window hwindow => .line (Window.reads_clause (hwindows window hwindow))
  have hwritten : Written
      (query.body.marks ⟨query.resultKeyword,
        query.windows.map (Window.clause query.prologue.prefixes), query.windowHeader⟩)
      (query.body.tokens query.resultKeyword (query.windows.flatMap fun window =>
        .word "FROM" :: window.tokens query.prologue.prefixes) "WINDOW" query.prologue.prefixes) :=
    QueryBody.written hbody hruns (by decide) (fun _ => rfl) resultKeyword_mem hclauses
  have hall := (Prologue.written hprologue).append ((written_register houtput).append hwritten)
  rw [← List.append_assoc] at hall
  exact Page.tokens?_render hall

/-- The query of the base language is split into the tokens of its prologue and its body. -/
theorem tokens?_plainText {query : Query} (hprologue : query.prologue.Declared)
    (hbody : query.body.Lexical query.prologue.prefixes)
    (hruns : ∀ ts ∈ query.body.runs, Separable ts) :
    Token.tokens? query.plainText.toList = some query.plainTokens := by
  have hwritten : Written
      (query.body.marks ⟨none, [], fun name =>
        some ("GRAPH " ++ name.queryText query.prologue.prefixes)⟩)
      (query.body.tokens none [] "GRAPH" query.prologue.prefixes) :=
    QueryBody.written hbody hruns (by decide) (fun _ => rfl) nofun .nil
  exact Page.tokens?_render ((Prologue.written hprologue).append hwritten)

end Query

end StreamQuery
