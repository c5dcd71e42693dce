import StreamQuery.Proofs.Query.WellFormed
import StreamQuery.Proofs.Token.Steady

/-! # The text of a query is steady

Every word of a written query keeps steady what follows it, whatever runs together inside: runs of
tokens that are not told apart, and durations with blanks around them or a minus sign in front.
-/

namespace StreamQuery

open Text Lexeme Token

/-- Marks whose words keep steady what follows them. -/
def Keeping (marks : List Mark) : Prop := ∀ text, .word text ∈ marks → Keeps text.toList

namespace Keeping

variable {marks marks' : List Mark} {text : String} {ts : List Token}

theorem nil : Keeping [] := nofun

theorem append (h : Keeping marks) (h' : Keeping marks') : Keeping (marks ++ marks') := by
  intro text htext
  rcases List.mem_append.mp htext with htext | htext
  · exact h text htext
  · exact h' text htext

theorem flatMap {α : Type} {f : α → List Mark} {as : List α} (h : ∀ a ∈ as, Keeping (f a)) :
    Keeping (as.flatMap f) := by
  intro text htext
  obtain ⟨a, ha, htext⟩ := List.mem_flatMap.mp htext
  exact h a ha text htext

theorem word (htext : Keeps text.toList) (h : Keeping marks) : Keeping (.word text :: marks) := by
  intro text' htext'
  rcases List.mem_cons.mp htext' with heq | htext'
  · cases heq
    exact htext
  · exact h text' htext'

theorem layout {mark : Mark} (hmark : ∀ text, mark ≠ .word text) (h : Keeping marks) :
    Keeping (mark :: marks) := by
  intro text htext
  rcases List.mem_cons.mp htext with heq | htext
  · exact absurd heq.symm (hmark text)
  · exact h text htext

theorem newline (h : Keeping marks) : Keeping (.newline :: marks) := h.layout nofun

theorem line (htext : Keeps text.toList) : Keeping (Mark.line text) := (nil.newline.word htext).newline

theorem keyword (word : String) (hword : word ∈ keywords) (h : Keeping marks) :
    Keeping (.word word :: marks) :=
  h.word (Keeps.token (lexical_keyword hword))

theorem braces (h : Keeping marks) : Keeping (Mark.braces marks) := by
  have hmark : ∀ mark ∈ ["\x7b", "\x7d"], Keeps mark.toList := by
    intro mark hmark
    have hmarks : ∀ mark ∈ ["\x7b", "\x7d"], mark ∈ Token.marks := by decide
    exact Keeps.token (.punct (hmarks mark hmark))
  have hend : Keeping [.newline, .dedent, .word "\x7d"] :=
    newline (layout nofun (word (hmark _ (by decide)) nil))
  have hinner : Keeping (.newline :: .indent :: (marks ++ [.newline, .dedent, .word "\x7d"])) :=
    newline (layout nofun (h.append hend))
  simpa [Mark.braces] using hinner.word (hmark "\x7b" (by decide))

/-- A run of tokens, whether or not they are told apart. -/
theorem tokens (hts : ∀ t ∈ ts, t.Lexical) : Keeping (Mark.tokens ts) := by
  refine flatMap fun statement hmem => ?_
  have hwithin : statement <:+: ts := by
    have := List.infix_of_mem_flatten hmem
    rwa [Mark.flatten_statements] at this
  refine word (.join fun t ht => hts t (hwithin.subset ht)) ?_
  split
  · exact nil.newline
  · exact nil

end Keeping

theorem Token.Keeps.keyword (word : String) (h : word ∈ keywords) {cs : List Char} (hcs : Keeps cs) :
    Keeps (word.toList ++ ' ' :: cs) :=
  (Keeps.token (lexical_keyword h)).append hcs

/-! ### Lines -/

namespace Page

/-- A page whose lines are steady in front of steady text. -/
structure Steady (page : Page) : Prop where
  finished : ∀ rest, Token.Steady rest → Token.Steady (page.finishedText ++ rest)
  line : Keeps page.line.toList

variable {page : Page}

theorem Steady.empty : Page.empty.Steady where
  finished rest h := by simpa [finishedText, Page.empty] using h
  line := .nil

theorem steady_spaces (n : Nat) {rest : List Char} (h : Token.Steady rest) :
    Token.Steady (List.replicate n ' ' ++ rest) := by
  induction n with
  | zero => exact h
  | succ n ih => exact ih.space rfl

theorem Steady.endLine (h : page.Steady) : page.endLine.Steady := by
  unfold Page.endLine
  split
  · exact h
  · refine ⟨fun rest hrest => ?_, .nil⟩
    have hline := h.line _ (.newline rest) (hrest.space (c := '\n') rfl)
    simpa [finishedText, String.toList_append] using
      h.finished _ (steady_spaces (2 * page.depth) hline)

theorem Steady.write (h : page.Steady) {mark : Mark}
    (hmark : ∀ text, mark = .word text → Keeps text.toList) : (page.write mark).Steady := by
  cases mark with
  | word text =>
      have hword := hmark text rfl
      unfold Page.write
      dsimp only
      split
      · exact h
      · split
        · exact ⟨h.finished, hword⟩
        · refine ⟨h.finished, ?_⟩
          simpa [String.toList_append] using h.line.append hword
  | newline => exact h.endLine
  | blankLine =>
      unfold Page.write
      dsimp only
      split
      · exact h.endLine
      · exact h.endLine
      · refine ⟨fun rest hrest => ?_, h.endLine.line⟩
        simpa [finishedText] using h.endLine.finished _ (hrest.space (c := '\n') rfl)
  | indent => exact ⟨h.finished, h.line⟩
  | dedent => exact ⟨h.finished, h.line⟩

/-- A page of words that keep steady what follows them is steady. -/
theorem steady_render {marks : List Mark} (h : Keeping marks) :
    Token.Steady (render marks).toList := by
  have hpage : ∀ page : Page, page.Steady → (marks.foldl Page.write page).Steady := by
    induction marks with
    | nil => exact fun page hpage => hpage
    | cons mark marks ih =>
        intro page hpage
        refine ih (fun text htext => h text (List.mem_cons_of_mem _ htext)) _ (hpage.write ?_)
        rintro text rfl
        exact h text List.mem_cons_self
  have hend := (hpage _ .empty).endLine.finished [] .nil
  rwa [List.append_nil, ← toList_render] at hend

end Page

/-! ### Windows -/

namespace QueryReader

variable {measure : Measure} {term : Term} {prefixes : PrefixMapping}

/-- A lexical form of a duration keeps steady what follows it, and does not run together with a hyphen
in front of it. -/
theorem steady_duration {value : String} (h : (DurationFields.ofLexical? value).isSome)
    {rest : List Char} (hrest : Separated rest) (hsteady : Steady rest) :
    Steady (value.toList ++ rest) ∧ Stops Char.isDigit (value.toList ++ rest) ∧
      ((value.toList ++ rest).dropWhile isLabelChar).head? ≠ some ':' := by
  obtain ⟨before, sign, word, after, htext, hbefore, hafter, hsign, hhead, hlexical⟩ :=
    DurationFields.exists_word h
  have hplain : ':' ∉ sign ++ word := by
    have hchars := hlexical.word_chars
    rw [String.toList_ofList] at hchars
    intro hmem
    rcases List.mem_append.mp hmem with hmem | hmem
    · rcases hsign with rfl | rfl <;> exact absurd hmem (by decide)
    · exact absurd (hchars ':' hmem) (by decide)
  -- from the right: the blanks behind the word, the word, its sign, and the blanks in front of it
  have htail : Stops isLocalChar (after ++ rest) :=
    Steady.stops_of_isBlank hafter fun _ => hrest.boundary.stops (by decide)
  have hword := (Steady.blanks hafter hsteady).word hlexical
    (htail.mono fun c hc => by simp [isLocalChar, isLabelChar_of_isNameChar hc])
    (htail.mono fun c hc => by simp [isLocalChar, isLabelChar, eq_of_beq hc])
    (Steady.no_colon_of_stops htail)
  have hcolon := no_colon_append hplain (Steady.no_colon_of_stops htail)
  obtain ⟨hsigned, hdigit⟩ : Steady (sign ++ word ++ (after ++ rest)) ∧
      Stops Char.isDigit (sign ++ word ++ (after ++ rest)) := by
    rw [String.toList_ofList] at hword
    obtain ⟨others, rfl⟩ := List.head?_eq_some_iff.mp hhead
    rcases hsign with rfl | rfl
    · exact ⟨hword, stops_of_head? rfl (by decide)⟩
    · exact ⟨hword.hyphen (stops_of_head? rfl (by decide)), stops_of_head? rfl (by decide)⟩
  have hwhole : value.toList ++ rest = before ++ (sign ++ word ++ (after ++ rest)) := by
    simp [htext]
  rw [hwhole]
  refine ⟨Steady.blanks hbefore hsigned, ?_⟩
  by_cases hne : before = []
  · rw [hne]
    exact ⟨hdigit, hcolon⟩
  · have hstops : Stops isLocalChar (before ++ (sign ++ word ++ (after ++ rest))) :=
      Steady.stops_of_isBlank hbefore fun hnil => absurd hnil hne
    refine ⟨hstops.mono fun c hc => ?_, Steady.no_colon_of_stops hstops⟩
    simp [isLocalChar, isLabelChar, isAlphanumeric, isDecimalDigit, isWordDigit, hc]

theorem Measure.Fits.keeps (h : measure.Fits term) (prefixes : PrefixMapping) :
    Keeps (term.slotText prefixes).toList := by
  rw [← Term.text_slotToken prefixes measure]
  exact .token h.lexical

theorem Measure.Holds.keeps (h : measure.Holds term) (prefixes : PrefixMapping) :
    Keeps (term.slotText prefixes).toList := by
  cases h with
  | «variable» h => exact (show measure.Fits _ from .variable h).keeps prefixes
  | duration hvalid =>
      intro rest hrest h
      rw [Term.slotText, Literal.value_typed]
      exact (steady_duration hvalid hrest h).1
  | count h => exact (Measure.Fits.count h).keeps prefixes

theorem Measure.Holds.keeps_past (h : Measure.duration.Holds term) (prefixes : PrefixMapping) :
    Keeps ("NOW-".toList ++ (term.slotText prefixes).toList) := by
  intro rest hrest hsteady
  obtain ⟨hslot, hdigit, hcolon⟩ : Steady ((term.slotText prefixes).toList ++ rest) ∧
      Stops Char.isDigit ((term.slotText prefixes).toList ++ rest) ∧
      (((term.slotText prefixes).toList ++ rest).dropWhile isLabelChar).head? ≠ some ':' := by
    cases h with
    | @«variable» _ v h =>
        refine ⟨(show Measure.duration.Fits _ from .variable h).keeps prefixes rest hrest hsteady, ?_⟩
        have htext : (Term.slotText prefixes (.variable v)).toList = '?' :: v.name.toList :=
          String.toList_append
        rw [htext]
        exact ⟨stops_of_head? (c := '?') rfl (by decide),
          no_colon_of_head (c := '?') (by decide) (by decide)⟩
    | duration hvalid =>
        rw [Term.slotText, Literal.value_typed]
        exact steady_duration hvalid hrest hsteady
  have hnow : ∀ word ∈ ["NOW".toList], IsBareWord word :=
    List.forall_mem_singleton.mpr ⟨by decide, by decide⟩
  simpa [hyphenated] using hslot.hyphenated hnow hdigit hcolon

end QueryReader

section Windows

variable {prefixes : PrefixMapping} {window : Window} {term : Term}

theorem Term.Names.keeps (h : term.Names prefixes) : Keeps (term.slotText prefixes).toList := by
  rw [h.slotText_eq]
  exact .token h.lexical

theorem Frame.keeps_text {frame : Frame} (h : ∀ term ∈ frame.terms, frame.measure.Holds term)
    (prefixes : PrefixMapping) : Keeps (frame.text prefixes).toList := by
  cases frame with
  | logical range =>
      have hrange : QueryReader.Measure.duration.Holds range := h range List.mem_cons_self
      simpa [text, String.toList_append] using
        Keeps.keyword "RANGE" (by decide) (hrange.keeps prefixes)
  | past start stop =>
      obtain ⟨hstart, hstop⟩ := List.forall_mem_cons.mp h
      have hstop := hstop stop List.mem_cons_self
      simpa [text, String.toList_append] using
        Keeps.keyword "FROM" (by decide) ((hstart.keeps_past prefixes).append
          (.keyword "TO" (by decide) (hstop.keeps_past prefixes)))
  | physical items =>
      have hitems : QueryReader.Measure.count.Holds items := h items List.mem_cons_self
      simpa [text, String.toList_append] using
        Keeps.keyword "ITEM" (by decide) (hitems.keeps prefixes)

theorem Window.keeps_step {cs : List Char} (hcs : Keeps cs)
    (h : ∀ term ∈ window.step.toList, window.frame.measure.Holds term) (prefixes : PrefixMapping) :
    Keeps (cs ++ (window.stepText prefixes).toList) := by
  unfold stepText
  cases hstep : window.step with
  | none => simpa using hcs
  | some step =>
      have hholds := h step (by simp [hstep])
      simpa [String.toList_append] using
        hcs.append (Keeps.keyword "STEP" (by decide) (hholds.keeps prefixes))

/-- The declaration of a window that was read keeps steady what follows it. -/
theorem Window.keeps_clause (h : window.Reading prefixes) :
    Keeps (window.clause prefixes).toList := by
  obtain ⟨hframe, hstep⟩ := List.forall_mem_append.mp h.slots
  have hslots := (keeps_step (Frame.keeps_text hframe prefixes) hstep prefixes).bracketed
  have hnames := h.id.keeps.append (.keyword "ON" (by decide) (h.stream.keeps.append hslots))
  have hclause := Keeps.keyword "FROM" (by decide)
    (.keyword "NAMED" (by decide) (.keyword "WINDOW" (by decide) hnames))
  rw [clause_eq]
  simpa [String.toList_append] using hclause

end Windows

/-! ### Queries -/

theorem Prologue.keeping {prologue : Prologue} (h : prologue.Declared) : Keeping prologue.marks := by
  have hbase : Keeping (prologue.base.toList.flatMap fun base => Mark.line s!"BASE <{base}>") := by
    refine .flatMap fun base hmem => .line ?_
    have hiri : (Token.iri base).Lexical := .of_iri_chars (h.base base (by simpa using hmem))
    simpa [toString, String.toList_append, Token.text] using
      Keeps.keyword "BASE" (by decide) (.token hiri)
  have hentries : Keeping (prologue.prefixes.entries.flatMap fun entry =>
      Mark.line s!"PREFIX {entry.1}: <{entry.2}>") := by
    refine .flatMap fun entry hmem => .line ?_
    have hlabel := (h.prefixes.labels entry hmem).lexical
    have hspace : (Token.iri entry.2).Lexical := .of_iri_chars (h.prefixes.spaces entry hmem)
    simpa [toString, String.toList_append, Token.text] using
      Keeps.keyword "PREFIX" (by decide) ((Keeps.token hlabel).append (.token hspace))
  refine (hbase.append hentries).append ?_
  split
  · exact .nil
  · exact Keeping.layout (by rintro _ ⟨⟩) .nil

theorem Query.keeping_register {query : Query}
    (h : ∀ stream ∈ query.output, (stream.nameToken query.prologue.prefixes).Lexical) :
    Keeping query.registerMarks := by
  unfold registerMarks
  cases houtput : query.output with
  | none => exact .nil
  | some stream =>
      have hstream : Keeps (stream.queryText query.prologue.prefixes).toList := by
        rw [← Term.text_nameToken]
        exact .token (h stream houtput)
      have hline := Keeps.keyword "REGISTER" (by decide) (.keyword _ query.registerKeyword_mem
        (hstream.append (.token (t := .word "AS") (lexical_keyword (by decide)))))
      refine Keeping.line ?_
      simpa [String.toList_append, Token.text, registerKeyword] using hline

theorem keeping_operator {operator : Option String} (h : ∀ word ∈ operator, word ∈ keywords) :
    Keeping (operator.toList.map Mark.word) := by
  cases operator with
  | none => exact .nil
  | some word => exact .keyword word (h word rfl) .nil

theorem ResultForm.keeping {form : ResultForm} {operator : Option String}
    (hoperator : ∀ word ∈ operator, word ∈ keywords) (hlexical : ∀ t ∈ form.tokens none, t.Lexical) :
    Keeping (form.marks operator) := by
  cases form with
  | select modifier projection =>
      obtain ⟨hhead, hprojection⟩ := List.forall_mem_append.mp hlexical
      have hmodifier : ∀ token ∈ modifier.toList, token.Lexical := fun token htoken =>
        hhead token (List.mem_append_right _ htoken)
      have hword : Keeping (modifier.toList.map fun token => Mark.word token.text) := by
        cases modifier with
        | none => exact .nil
        | some token => exact .word (.token (hmodifier token (by simp))) .nil
      simpa [marks] using Keeping.keyword "SELECT" (by decide)
        (((keeping_operator hoperator).append hword).append (.word (.join hprojection) .nil))
  | construct template =>
      have htemplate : Keeping
          (template.toList.flatMap fun tokens => Mark.braces (Mark.tokens tokens)) := by
        refine .flatMap fun ts hts => (Keeping.tokens fun t ht => ?_).braces
        refine hlexical t (List.mem_append_right _ (List.mem_flatMap.mpr ⟨ts, hts, ?_⟩))
        simp [ht]
      simpa [marks] using Keeping.keyword "CONSTRUCT" (by decide)
        ((keeping_operator hoperator).append htemplate)
  | ask => exact .keyword "ASK" (by decide) .nil
  | describe targets =>
      obtain ⟨-, htargets⟩ := List.forall_mem_cons.mp hlexical
      exact .keyword "DESCRIBE" (by decide) (.word (.join htargets) .nil)

theorem DatasetClause.keeping {clause : DatasetClause} (h : ∀ t ∈ clause.tokens, t.Lexical) :
    Keeping clause.marks := by
  cases clause with
  | default graph =>
      have hgraph : graph.Lexical := h graph (by simp [tokens])
      refine Keeping.line ?_
      simpa [toString, String.toList_append] using Keeps.keyword "FROM" (by decide) (.token hgraph)
  | named graph =>
      have hgraph : graph.Lexical := h graph (by simp [tokens])
      refine Keeping.line ?_
      simpa [toString, String.toList_append] using
        Keeps.keyword "FROM" (by decide) (.keyword "NAMED" (by decide) (.token hgraph))

theorem Pattern.keeping {header : Term → Option String} {p : Pattern}
    (hlexical : ∀ ts ∈ p.runs, ∀ t ∈ ts, t.Lexical)
    (hheader : ∀ name ∈ p.windowNames, Keeping ((header name).toList.map Mark.word)) :
    Keeping (p.marks header) := by
  induction p with
  | nil => exact .nil
  | run ts rest ih =>
      obtain ⟨hts, htail⟩ := List.forall_mem_cons.mp hlexical
      exact (Keeping.tokens hts).append (ih htail hheader)
  | group inner rest ihinner ihrest =>
      obtain ⟨hlexinner, hlexrest⟩ := List.forall_mem_append.mp hlexical
      rw [windowNames, windowBlocks, List.map_append] at hheader
      obtain ⟨hheadinner, hheadrest⟩ := List.forall_mem_append.mp hheader
      exact (ihinner hlexinner hheadinner).braces.append (ihrest hlexrest hheadrest)
  | window name inner rest ihinner ihrest =>
      obtain ⟨hlexinner, hlexrest⟩ := List.forall_mem_append.mp hlexical
      rw [windowNames, windowBlocks, List.map_append, List.map_cons] at hheader
      obtain ⟨hheadblock, hheadrest⟩ := List.forall_mem_append.mp hheader
      obtain ⟨hheading, hheadinner⟩ := List.forall_mem_cons.mp hheadblock
      have hblock := hheading.append (ihinner hlexinner hheadinner).braces
      exact (hblock.append (ihrest hlexrest hheadrest).newline).newline

/-- The header of a window block keeps steady what follows it. -/
theorem Pattern.keeping_header {prefixes : PrefixMapping} {p : Pattern}
    (hlexical : ∀ t ∈ p.tokens "WINDOW" prefixes, t.Lexical) {name : Term} (hname : name ∈ p.windowNames) :
    Keeping ((some ("WINDOW " ++ name.queryText prefixes)).toList.map Mark.word) := by
  have hlexname : (name.nameToken prefixes).Lexical :=
    hlexical _ (opening_subset hname _ (List.mem_cons_of_mem _ List.mem_cons_self))
  refine Keeping.word ?_ .nil
  rw [← Term.text_nameToken]
  simpa [String.toList_append] using Keeps.keyword "WINDOW" (by decide) (.token hlexname)

theorem QueryBody.keeping {prefixes : PrefixMapping} {body : QueryBody} {layout : BodyLayout}
    (h : body.Lexical prefixes) (hoperator : ∀ word ∈ layout.operator, word ∈ keywords)
    (hclauses : ∀ clause ∈ layout.clauses, Keeps clause.toList)
    (hheader : layout.header = fun name => some ("WINDOW " ++ name.queryText prefixes)) :
    Keeping (body.marks layout) := by
  have hpattern : Keeping (body.pattern.toList.flatMap fun pattern =>
      .word "WHERE" :: Mark.braces (pattern.marks layout.header) ++ [.newline]) := by
    refine .flatMap fun pattern hmem => ?_
    have hlexical := h.pattern pattern (Option.mem_toList.mp hmem) "WINDOW" (by decide)
    have hinner := @Pattern.keeping layout.header pattern
      (fun ts hts t ht => hlexical t (Pattern.runs_subset hts t ht)) fun name hname => by
        rw [hheader]
        exact Pattern.keeping_header hlexical hname
    exact (Keeping.keyword "WHERE" (by decide) hinner.braces).append (.newline .nil)
  have hmodifiers : Keeping
      (if body.modifiers.isEmpty then [] else Mark.tokens body.modifiers ++ [.newline]) := by
    split
    · exact .nil
    · exact (Keeping.tokens h.modifiers).append (.newline .nil)
  have hdataset : Keeping (body.dataset.flatMap DatasetClause.marks) :=
    .flatMap fun clause hclause => DatasetClause.keeping (h.dataset clause hclause)
  have hlines : Keeping (layout.clauses.flatMap Mark.line) :=
    .flatMap fun clause hclause => .line (hclauses clause hclause)
  have hbody := (ResultForm.keeping hoperator h.form).append
    ((hdataset.append (hlines.append (hpattern.append hmodifiers))).newline)
  simpa [marks] using hbody

/-- The text of a query that was read is steady. -/
theorem Query.steady_nativeText {query : Query} (h : query.Reading) :
    Token.Steady query.nativeText.toList := by
  refine Page.steady_render (((Prologue.keeping h.prologue).append
    (keeping_register fun stream hstream => (h.output stream hstream).lexical)).append
      (QueryBody.keeping h.lexical ?_ ?_ rfl))
  · exact fun word hword => resultKeyword_mem word hword
  · intro clause hclause
    obtain ⟨window, hwindow, rfl⟩ := List.mem_map.mp hclause
    exact Window.keeps_clause (h.declared window hwindow)

end StreamQuery
