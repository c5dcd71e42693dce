import StreamQuery.Proofs.Iri
import StreamQuery.Proofs.Query.RoundTrip
import StreamQuery.Proofs.Token.Reach

/-! # Constructed windows

A duration may be constructed with blanks around it and with a minus sign, but in a slot of a window it is
written without quotes, and there it is read only as a single word. A query is read again with the windows
that were added to it just if all of their durations can stand without quotes.
-/

namespace StreamQuery

open Text Lexeme Token QueryReader Page

/-! ### Text in front of a slot -/

namespace Token

variable {cs rest : List Char} {ts us all : List Token}

/-- A piece of text has the given tokens, whatever follows. -/
def Leads (cs : List Char) (ts : List Token) : Prop :=
  ∀ rest, tokens? (cs ++ rest) = (tokens? rest).map (ts ++ ·)

theorem Leads.append {as bs : List Char} (ha : Leads as ts) (hb : Leads bs us) :
    Leads (as ++ bs) (ts ++ us) := by
  intro rest
  rw [List.append_assoc, ha, hb, Option.map_map]
  simp [Function.comp_def]

theorem Reads.leads (h : Reads cs ts) : Leads (cs ++ [' ']) ts := by
  intro rest
  rw [List.append_assoc, List.singleton_append, h _ (.space rest), tokens?_space (.inl rfl)]

theorem Leads.bracket : Leads ['['] [.punct "["] := by
  intro rest
  refine tokens?_cons (n := 0) ?_
  rw [List.singleton_append, (BeginsWithMark.of_mem (by decide) rest).first?_eq]
  rfl

theorem Leads.exists_tokens (h : Leads cs ts) (hread : tokens? (cs ++ rest) = some all) :
    ∃ us, all = ts ++ us ∧ tokens? rest = some us := by
  rw [h] at hread
  obtain ⟨us, hus, rfl⟩ := Option.map_eq_some_iff.mp hread
  exact ⟨us, rfl, hus⟩

theorem exists_tokens_of_keyword {word : String} (hword : word ∈ keywords)
    (hread : tokens? (word.toList ++ ' ' :: rest) = some all) :
    ∃ us, all = .word word :: us ∧ tokens? rest = some us := by
  have hlead : Leads (word.toList ++ [' ']) [.word word] := (Reads.token (lexical_keyword hword)).leads
  refine hlead.exists_tokens ?_
  rwa [List.append_assoc, List.singleton_append]

theorem Reads.exists_tokens (h : Reads cs ts) (hrest : Separated rest)
    (hread : Token.tokens? (cs ++ rest) = some all) :
    ∃ us, all = ts ++ us ∧ Token.tokens? rest = some us := by
  rw [h rest hrest] at hread
  obtain ⟨us, hus, rfl⟩ := Option.map_eq_some_iff.mp hread
  exact ⟨us, rfl, hus⟩

/-- The hyphen behind `NOW` is a token of its own where neither a digit nor a name follows. -/
theorem tokens?_now (hdigit : Stops Char.isDigit rest)
    (hcolon : (rest.dropWhile isLabelChar).head? ≠ some ':') :
    tokens? ("NOW-".toList ++ rest) = (tokens? rest).map ([.word "NOW", .punct "-"] ++ ·) := by
  have hlexical : (Token.word "NOW").Lexical := lexical_keyword (by decide)
  have hword : IsBareWord "NOW".toList := (hlexical.isBareWord (by decide)).1
  have hnow : first? ("NOW".toList ++ '-' :: rest) = some (.word "NOW", 3) :=
    first?_bareWord hword (stops_of_head? rfl (by decide)) (stops_of_head? rfl (by decide))
      (by rwa [List.dropWhile_cons_of_pos (by decide)])
  have hhyphen : tokens? ('-' :: rest) = (tokens? rest).map (.punct "-" :: ·) :=
    tokens?_cons (first?_hyphen hdigit)
  have htokens : tokens? ("NOW".toList ++ '-' :: rest) =
      (tokens? ('-' :: rest)).map (.word "NOW" :: ·) := tokens?_cons hnow
  rw [hhyphen, Option.map_map] at htokens
  exact htokens

/-- What begins outside of quotes is no literal, and blanks in front do not count. -/
theorem ne_literal_of_blanks {before : List Char} {c : Char} {token : Token}
    (hbefore : ∀ b ∈ before, isBlank b) (hquote : isQuote c = false) (hgap : ¬ (isSpace c ∨ c = '#'))
    (h : tokens? (before ++ c :: rest) = some (token :: ts)) : ∀ lexeme, token ≠ .literal lexeme := by
  induction before with
  | nil =>
      rintro lexeme rfl
      have hlexical := lexical_of_tokens? h _ List.mem_cons_self
      rw [List.nil_append, tokens?_eq, gap_eq_zero hgap, List.drop_zero] at h
      dsimp only at h
      split at h
      · next found n hfirst =>
        obtain ⟨_, -, heq⟩ := Option.map_eq_some_iff.mp h
        cases heq
        obtain ⟨-, htake | ⟨_, ⟨⟩, -⟩⟩ := lexeme_of_first? hfirst
        cases hlexical with
        | literal hlength =>
            obtain ⟨q, tail, hq, rfl⟩ := exists_of_literalLength? hlength
            rw [List.take_succ_cons, Token.text, String.toList_ofList] at htake
            cases htake
            rw [hquote] at hq
            cases hq
      · cases h
  | cons b before ih =>
      obtain ⟨hb, hbefore⟩ := List.forall_mem_cons.mp hbefore
      by_cases hspace : isSpace b
      · rw [List.cons_append, tokens?_isSpace hspace] at h
        exact ih hbefore h
      · -- other blanks begin no token, and nothing is read
        have hmark : b ≠ '#' := by
          rintro rfl
          cases hb
        rw [List.cons_append, tokens?_eq, gap_eq_zero (not_or.mpr ⟨hspace, hmark⟩), List.drop_zero] at h
        dsimp only at h
        rw [first?_whiteSpace hb] at h
        cases h

end Token

/-! ### Slots -/

namespace QueryReader

variable {prefixes : PrefixMapping} {term : Term} {slot : String} {rest : List Char}
  {ts others : List Token} {window : Window}

/-- What is written in a slot for durations does not run together with a hyphen in front of it. -/
theorem Measure.Holds.begins (h : Measure.duration.Holds term) (hrest : Separated rest) :
    Stops Char.isDigit ((term.slotText prefixes).toList ++ rest) ∧
      (((term.slotText prefixes).toList ++ rest).dropWhile isLabelChar).head? ≠ some ':' := by
  cases h with
  | @«variable» _ v =>
      have htext : ((Term.variable v).slotText prefixes).toList = '?' :: v.name.toList := by
        simp [Term.slotText, Term.queryText, Term.text, String.toList_append]
      rw [htext]
      exact ⟨stops_of_head? rfl (by decide), no_colon_of_head (by decide) (by decide)⟩
  | @duration value hvalid =>
      obtain ⟨before, sign, word, after, htext, hbefore, hafter, hsign, hhead, hword⟩ :=
        DurationFields.exists_word hvalid
      obtain ⟨body, rfl⟩ := List.head?_eq_some_iff.mp hhead
      have hslot : (Term.slotText prefixes (.literal (.typed value
          "http://www.w3.org/2001/XMLSchema#duration"))).toList = value.toList := by
        rw [Term.slotText, Literal.value_typed]
      have hcolon : ':' ∉ value.toList := by
        intro hmem
        rw [htext] at hmem
        simp only [List.mem_append] at hmem
        rcases hmem with hmem | hmem | hmem | hmem
        · exact absurd (hbefore ':' hmem) (by decide)
        · rcases hsign with rfl | rfl <;> simp at hmem
        · exact absurd (hword.word_chars ':' (by rwa [String.toList_ofList])) (by decide)
        · exact absurd (hafter ':' hmem) (by decide)
      rw [hslot]
      refine ⟨?_, no_colon_append hcolon hrest.boundary.no_colon⟩
      rw [htext]
      cases before with
      | nil => rcases hsign with rfl | rfl <;> exact stops_of_head? rfl (by decide)
      | cons b before =>
          have hb := (plain_of_isBlank (hbefore b List.mem_cons_self)).2.1
          simp only [isNumberStart, Bool.or_eq_false_iff] at hb
          exact stops_of_head? rfl hb.1.1

/-- A slot is read from its own text only if its value can stand without quotes. -/
theorem Measure.Holds.readSlot_spec (h : Measure.duration.Holds term) (hrest : Separated rest)
    (htokens : tokens? ((term.slotText prefixes).toList ++ rest) = some ts)
    (hread : readSlot prefixes .duration slot ts = .ok (term, others)) :
    term.IsBare ∧ tokens? rest = some others := by
  have hbare : term.IsBare := by
    cases ts with
    | nil => cases hread
    | cons token ts =>
        cases h with
        | «variable» => exact nofun
        | @duration value hvalid =>
            refine isBare_of_readSlot hread (lexical_of_tokens? htokens token List.mem_cons_self) ?_
            obtain ⟨before, sign, word, after, htext, hbefore, -, hsign, hhead, -⟩ :=
              DurationFields.exists_word hvalid
            obtain ⟨body, rfl⟩ := List.head?_eq_some_iff.mp hhead
            rw [Term.slotText, Literal.value_typed, htext, List.append_assoc] at htokens
            rcases hsign with rfl | rfl
            · exact ne_literal_of_blanks hbefore (by decide) (by decide) htokens
            · exact ne_literal_of_blanks hbefore (by decide) (by decide) htokens
  have hfits := h.fits fun _ => hbare
  obtain ⟨us, rfl, hus⟩ := (hfits.reads prefixes).exists_tokens hrest htokens
  rw [List.singleton_append, hfits.readSlot] at hread
  cases hread
  exact ⟨hbare, hus⟩

theorem Measure.Holds.readPast_spec (h : Measure.duration.Holds term) (hrest : Separated rest)
    (htokens : tokens? ("NOW-".toList ++ ((term.slotText prefixes).toList ++ rest)) = some ts)
    (hread : readPast prefixes slot ts = .ok (term, others)) :
    term.IsBare ∧ tokens? rest = some others := by
  obtain ⟨hdigit, hcolon⟩ := h.begins hrest
  rw [tokens?_now hdigit hcolon] at htokens
  obtain ⟨us, hus, rfl⟩ := Option.map_eq_some_iff.mp htokens
  exact h.readSlot_spec hrest hus hread

theorem separated_stepText (window : Window) (hrest : Separated rest) :
    Separated ((window.stepText prefixes).toList ++ rest) := by
  unfold Window.stepText
  cases window.step with
  | none => exact hrest
  | some step =>
      simp only [String.toList_append]
      exact .space _

/-- A step is read from its own text only if its value can stand without quotes. -/
theorem isBare_of_readStep (hholds : ∀ step ∈ window.step.toList, Measure.duration.Holds step)
    (hrest : Separated rest) (htokens : tokens? ((window.stepText prefixes).toList ++ rest) = some ts)
    (hread : readStep prefixes .duration ts = .ok (window.step, others)) :
    ∀ step ∈ window.step.toList, step.IsBare := by
  unfold Window.stepText at htokens
  cases hstep : window.step with
  | none => nofun
  | some step =>
      rw [hstep] at htokens hread hholds
      have hsteptext : (" STEP " ++ step.slotText prefixes).toList ++ rest =
          ' ' :: ("STEP".toList ++ ' ' :: ((step.slotText prefixes).toList ++ rest)) := by
        simp [String.toList_append]
      rw [hsteptext, tokens?_space (.inl rfl)] at htokens
      obtain ⟨us, rfl, hus⟩ := exists_tokens_of_keyword (by decide) htokens
      obtain ⟨⟨_, _⟩, hslot, heq⟩ := bind_eq_ok_iff.mp hread
      cases heq
      obtain ⟨hbare, -⟩ := (hholds step (by simp)).readSlot_spec hrest hus hslot
      simpa using hbare

/-- A frame and its step are read from their own text only if their durations can stand without
quotes. -/
theorem isBare_of_readFrame
    (hholds : ∀ term ∈ window.frame.terms ++ window.step.toList, window.frame.measure.Holds term)
    (hrest : Separated rest)
    (htokens : tokens? ((window.frame.text prefixes).toList ++
      ((window.stepText prefixes).toList ++ rest)) = some ts)
    (hread : readFrame prefixes ts = .ok (window.frame, window.step, others)) : window.IsBare := by
  have hseparated : Separated ((window.stepText prefixes).toList ++ rest) :=
    separated_stepText window hrest
  obtain ⟨hframe, hstep⟩ := List.forall_mem_append.mp hholds
  unfold Window.IsBare
  cases hcases : window.frame with
  | physical items => exact nofun
  | logical range =>
      rw [hcases] at hframe hstep htokens hread
      have hrange := hframe range List.mem_cons_self
      have hrangetext : (Frame.text prefixes (.logical range)).toList =
          "RANGE".toList ++ ' ' :: (range.slotText prefixes).toList := by
        simp [Frame.text, String.toList_append]
      rw [hrangetext, List.append_assoc, List.cons_append] at htokens
      obtain ⟨us, rfl, hus⟩ := exists_tokens_of_keyword (by decide) htokens
      cases readFrame_eq_ok_iff.mp hread with
      | logical hword hreadrange hreadstep =>
          obtain ⟨hbare, hothers⟩ := hrange.readSlot_spec hseparated hus hreadrange
          have hsteps := isBare_of_readStep hstep hrest hothers hreadstep
          exact fun _ => List.forall_mem_cons.mpr ⟨hbare, hsteps⟩
  | past start stop =>
      rw [hcases] at hframe hstep htokens hread
      obtain ⟨hstart, hstop⟩ := List.forall_mem_cons.mp hframe
      have hstop := hstop stop List.mem_cons_self
      have hpasttext : (Frame.text prefixes (.past start stop)).toList =
          "FROM".toList ++ ' ' :: ("NOW-".toList ++ ((start.slotText prefixes).toList ++
            ' ' :: ("TO".toList ++ ' ' :: ("NOW-".toList ++ (stop.slotText prefixes).toList)))) := by
        simp [Frame.text, String.toList_append]
      rw [hpasttext] at htokens
      simp only [List.append_assoc, List.cons_append] at htokens
      obtain ⟨us, rfl, hus⟩ := exists_tokens_of_keyword (by decide) htokens
      cases readFrame_eq_ok_iff.mp hread with
      | past hword hreadstart hto hreadstop hreadstep =>
          obtain ⟨hstartbare, hafter⟩ := hstart.readPast_spec (.space _) hus hreadstart
          rw [tokens?_space (.inl rfl)] at hafter
          obtain ⟨vs, rfl, hvs⟩ := exists_tokens_of_keyword (by decide) hafter
          cases hto
          obtain ⟨hstopbare, hothers⟩ := hstop.readPast_spec hseparated hvs hreadstop
          have hsteps := isBare_of_readStep hstep hrest hothers hreadstep
          exact fun _ => List.forall_mem_cons.mpr
            ⟨hstartbare, List.forall_mem_cons.mpr ⟨hstopbare, hsteps⟩⟩

end QueryReader

/-! ### Text in front of a declaration -/

theorem Page.line_endLine (page : Page) : page.endLine.line = "" := by
  unfold endLine
  split
  · assumption
  · rfl

/-- A line of its own stands in the text of a page behind what was written before. -/
theorem Page.leads_line {marks : List Mark} {ts : List Token} {text : String}
    (h : Written marks ts) (htext : text ≠ "") (marks' : List Mark) : ∃ lead more, Leads lead ts ∧
      (render (marks ++ (Mark.line text ++ marks'))).toList = lead ++ (text.toList ++ '\n' :: more) := by
  obtain ⟨done, current, hpage, htokens⟩ := Page.Holds.empty.writeAll h
  have hend := hpage.endLine
  have hline := (marks.foldl write Page.empty).line_endLine
  generalize hbelow : (marks.foldl write Page.empty).endLine = page at hend hline
  have hword : (page.write (.word text)).endLine = { page with
      finished := (String.ofList (List.replicate (2 * page.depth) ' ') ++ text) :: page.finished } := by
    simp [write, hline, htext, Page.endLine]
  have hwritten : (Mark.line text).foldl write (marks.foldl write Page.empty) =
      (page.write (.word text)).endLine := by
    rw [← hbelow]
    rfl
  obtain ⟨more, hmore⟩ := isPrefix_finishedText marks' { page with
    finished := (String.ofList (List.replicate (2 * page.depth) ' ') ++ text) :: page.finished }
  refine ⟨page.finishedText ++ List.replicate (2 * page.depth) ' ', more, ?_, ?_⟩
  · intro rest
    rw [List.append_assoc, hend.finished, tokens?_spaces, htokens]
    rfl
  · rw [toList_render, List.foldl_append, List.foldl_append, hwritten, hword, ← hmore]
    simp [finishedText, String.toList_append]

namespace Query

variable {query : Query} {before after : List Window} {window : Window}

/-- The tokens in front of the declarations of windows behind the given ones. -/
def frontTokens (query : Query) (before : List Window) : List Token :=
  query.prologue.tokens ++ (query.registerTokens ++ (query.body.form.tokens query.resultKeyword ++
    (query.body.dataset.map Sum.inl ++ before.map Sum.inr).flatMap
      (sourceTokens query.prologue.prefixes)))

/-- The declaration of a window stands in the text of a query behind the declarations of the windows
before it. -/
theorem leads_clause (h : query.Reading) (hruns : ∀ ts ∈ query.body.runs, Separable ts)
    (hwindows : query.windows = before ++ window :: after)
    (hfits : ∀ other ∈ before, other.Fits query.prologue.prefixes) :
    ∃ lead more, Leads lead (query.frontTokens before) ∧ query.nativeText.toList =
      lead ++ ((window.clause query.prologue.prefixes).toList ++ '\n' :: more) := by
  have hform : Written (query.body.form.marks query.resultKeyword)
      (query.body.form.tokens query.resultKeyword) :=
    ResultForm.written resultKeyword_mem h.lexical.form fun ts hts =>
      hruns ts (List.mem_append_left _ (List.mem_append_left _ hts))
  have hdataset : Written (query.body.dataset.flatMap DatasetClause.marks)
      (query.body.dataset.flatMap DatasetClause.tokens) :=
    .flatMap _ fun clause hclause => DatasetClause.written (h.lexical.dataset clause hclause)
  have hbefore : Written (before.flatMap fun other =>
      Mark.line (other.clause query.prologue.prefixes))
      (before.flatMap fun other => .word "FROM" :: other.tokens query.prologue.prefixes) :=
    .flatMap _ fun other hother => .line (Window.reads_clause (hfits other hother))
  have hfront := (Prologue.written h.prologue).append ((written_register fun stream hstream =>
    (h.output stream hstream).lexical).append (hform.append (hdataset.append hbefore).newline))
  have hne : window.clause query.prologue.prefixes ≠ "" := by
    simp [Window.clause_eq]
  obtain ⟨lead, more, hlead, htext⟩ := Page.leads_line hfront hne
    ((after.flatMap fun other => Mark.line (other.clause query.prologue.prefixes)) ++
      ((query.body.pattern.toList.flatMap fun pattern =>
        .word "WHERE" :: Mark.braces (pattern.marks query.windowHeader) ++ [.newline]) ++
      if query.body.modifiers.isEmpty then [] else Mark.tokens query.body.modifiers ++ [.newline]))
  refine ⟨lead, more, ?_, ?_⟩
  · simpa [frontTokens, sourceTokens, List.flatMap_map] using hlead
  · rw [← htext]
    simp [nativeText, QueryBody.marks, hwindows, resultKeyword, List.flatMap_map]

end Query

namespace QueryReader

variable {prefixes : PrefixMapping} {query found : Query} {before : List Window} {ts rest : List Token}

/-- Behind clauses that can be read there are the others. -/
theorem readSources_behind {sources all : List (DatasetClause ⊕ Window)} {bound : Nat}
    (h : ∀ source ∈ sources, SourceFits prefixes source)
    (hbare : ∀ window, .inr window ∈ sources → window.IsBare)
    (hread : readSources prefixes bound (sources.flatMap (sourceTokens prefixes) ++ ts) =
      .ok (all, rest))
    (hbound : (sources.flatMap (sourceTokens prefixes) ++ ts).length ≤ bound) :
    ∃ bound' others, readSources prefixes bound' ts = .ok (others, rest) ∧ ts.length ≤ bound' ∧
      all = sources ++ others := by
  induction sources generalizing bound all with
  | nil => exact ⟨bound, all, hread, hbound, rfl⟩
  | cons source sources ih =>
      obtain ⟨hsource, hsources⟩ := List.forall_mem_cons.mp h
      obtain ⟨tail, htokens, hfrom⟩ := readFrom_tokens hsource
        (fun window heq => hbare window (heq ▸ List.mem_cons_self))
        (sources.flatMap (sourceTokens prefixes) ++ ts)
      rw [List.flatMap_cons, htokens, List.append_assoc, List.cons_append] at hbound hread
      simp only [List.length_cons, List.length_append] at hbound
      obtain ⟨bound, rfl⟩ := Nat.exists_eq_succ_of_ne_zero (n := bound) (by omega)
      rw [readSources, if_pos (by decide)] at hread
      obtain ⟨_, hsame, hread⟩ := bind_eq_ok_iff.mp hread
      rw [hfrom] at hsame
      cases hsame
      obtain ⟨⟨others, _⟩, hothers, heq⟩ := bind_eq_ok_iff.mp hread
      cases heq
      obtain ⟨bound', others, hrest, hlength, rfl⟩ := ih hsources
        (fun window hmem => hbare window (List.mem_cons_of_mem _ hmem)) hothers
        (by rw [List.length_append]; omega)
      exact ⟨bound', others, hrest, hlength, rfl⟩

/-- A query that is read behind what stands in front of further windows has these windows next. -/
theorem windows_of_readQuery (h : query.Reading)
    (hdeclared : ∀ window ∈ before, window.Reading query.prologue.prefixes)
    (hbare : ∀ window ∈ before, window.IsBare)
    (hread : readQuery (query.frontTokens before ++ .word "FROM" :: ts) = .ok found) :
    ∃ source behind others, readFrom query.prologue.prefixes ts = .ok (source, behind) ∧
      found.windows = before ++ windowsOf (source :: others) := by
  obtain ⟨⟨first, afterFirst, hfirst, register, afterRegister, hregister, afterPrologue, hprologue, spoken,
    afterResult, hresult, sources, afterSources, hsources, -, hwindows, -⟩⟩ := parts_of_readQuery hread
  obtain ⟨operator, hreading, hspoken⟩ := h.form
  simp only [Query.frontTokens, List.append_assoc] at hfirst
  rw [readPrologue_tokens h.prologue (not_begins_register query _)] at hfirst
  cases hfirst
  rw [readRegister_tokens h.output fun t ht => (not_begins_form query _ t ht).1] at hregister
  cases hregister
  rw [readPrologue_of_not fun t ht => (not_begins_form query _ t ht).2] at hprologue
  obtain ⟨hsame, rfl⟩ := Prod.mk.inj (Except.ok.inj hprologue)
  have hclause : ∀ t ∈ ((query.body.dataset.map Sum.inl ++ before.map Sum.inr).flatMap
      (sourceTokens query.prologue.prefixes) ++ .word "FROM" :: ts).head?, beginsClause t := by
    cases query.body.dataset.map Sum.inl ++ before.map Sum.inr with
    | nil =>
        rintro _ ⟨⟩
        decide
    | cons source sources =>
        rw [List.flatMap_cons, List.append_assoc, List.head?_append, head?_sourceTokens]
        rintro _ ⟨⟩
        decide
  rw [readResult_tokens hreading hspoken hclause] at hresult
  obtain ⟨-, hresult⟩ := Prod.mk.inj (Except.ok.inj hresult)
  obtain ⟨-, rfl⟩ := Prod.mk.inj hresult
  rw [← hsame] at hsources
  obtain ⟨bound, others, hothers, hlength, rfl⟩ := readSources_behind (h.sourceFits hdeclared)
    (fun window hwindow => hbare window (by simpa using hwindow)) hsources (Nat.le_refl _)
  obtain ⟨bound, rfl⟩ := Nat.exists_eq_succ_of_ne_zero (n := bound)
    (by rw [List.length_cons] at hlength; omega)
  rw [readSources, if_pos (by decide)] at hothers
  obtain ⟨⟨source, behind⟩, hsource, hothers⟩ := bind_eq_ok_iff.mp hothers
  obtain ⟨⟨others, _⟩, -, heq⟩ := bind_eq_ok_iff.mp hothers
  cases heq
  refine ⟨source, behind, others, hsource, hwindows.trans ?_⟩
  simp [windowsOf, List.filterMap_append, List.filterMap_map, Function.comp_def]

end QueryReader

/-! ### Windows of a text -/

namespace Window

variable {prefixes : PrefixMapping} {window : Window} {ts us : List Token} {rest : List Char}

/-- The declaration of a window begins with its names. -/
theorem exists_tokens_of_clause (hid : window.id.Names prefixes) (hstream : window.stream.Names prefixes)
    (h : tokens? ((window.clause prefixes).toList ++ rest) = some ts) :
    ∃ us, ts = .word "FROM" :: .word "NAMED" :: .word "WINDOW" :: window.id.nameToken prefixes ::
        .word "ON" :: window.stream.nameToken prefixes :: .punct "[" :: us ∧
      tokens? ((window.frame.text prefixes).toList ++
        ((window.stepText prefixes).toList ++ (']' :: rest))) = some us := by
  have hnames := Reads.keyword "FROM" (by decide) (.keyword "NAMED" (by decide) (.keyword "WINDOW"
    (by decide) (hid.reads.append (.keyword "ON" (by decide) hstream.reads))))
  refine (hnames.leads.append Leads.bracket).exists_tokens ?_
  rw [← h, clause_eq]
  simp [String.toList_append]

/-- A window is read from its own declaration only if its durations can stand without quotes. -/
theorem isBare_of_readFrom {source : DatasetClause ⊕ Window} {behind : List Token}
    (h : window.Reading prefixes) (hrest : Separated rest)
    (htokens : tokens? ((window.clause prefixes).toList ++ rest) = some (.word "FROM" :: ts))
    (hread : readFrom prefixes ts = .ok (source, behind))
    (hsource : ∀ other, source = .inr other → other = window) : window.IsBare := by
  obtain ⟨us, heq, hus⟩ := exists_tokens_of_clause h.id h.stream htokens
  cases heq
  obtain ⟨⟨other, _⟩, hwindow, heq⟩ := bind_eq_ok_iff.mp hread
  cases heq
  obtain rfl := hsource other rfl
  obtain ⟨_, _, _, _, hid, hon, hstream, hframe, -⟩ := readWindow_eq_ok_iff.mp hwindow
  rw [readName_nameToken h.id] at hid
  cases hid
  cases hon
  rw [skipWord_nameToken, readName_nameToken h.stream] at hstream
  cases hstream
  exact isBare_of_readFrame h.slots hrest.bracket hus hframe

end Window

namespace Query

variable {text : String} {query query' found : Query} {windows : List Window}

/-- A query is read from its text with its windows only if their durations can stand without quotes. -/
theorem isBare_of_read_nativeText (h : query.Reading) (hruns : ∀ ts ∈ query.body.runs, Separable ts)
    (hread : read query.nativeText = .ok found) (hsame : found.windows = query.windows) :
    ∀ window ∈ query.windows, window.IsBare := by
  obtain ⟨all, htext, hquery⟩ := bind_eq_ok_iff.mp hread
  have htokens := Token.read_eq_ok_iff.mp (mapError_eq_ok_iff.mp htext)
  -- the windows before one that is looked at can stand without quotes
  suffices hstep : ∀ after before, query.windows = before ++ after →
      (∀ window ∈ before, window.IsBare) → ∀ window ∈ after, window.IsBare from
    hstep query.windows [] rfl (List.forall_mem_nil _)
  intro after
  induction after with
  | nil => exact fun _ _ _ => List.forall_mem_nil _
  | cons window after ih =>
      intro before hwindows hbare
      have hdeclared : ∀ other ∈ before, other.Reading query.prologue.prefixes := fun other hother =>
        h.declared other (hwindows ▸ List.mem_append_left _ hother)
      have hwindow : window.Reading query.prologue.prefixes :=
        h.declared window (hwindows ▸ List.mem_append_right _ List.mem_cons_self)
      obtain ⟨lead, more, hlead, hlayout⟩ := leads_clause h hruns hwindows
        fun other hother => (hdeclared other hother).fits (hbare other hother)
      rw [hlayout] at htokens
      obtain ⟨ts, rfl, hts⟩ := hlead.exists_tokens htokens
      obtain ⟨us, rfl, -⟩ := Window.exists_tokens_of_clause hwindow.id hwindow.stream hts
      obtain ⟨source, behind, others, hfrom, hfound⟩ :=
        windows_of_readQuery h hdeclared hbare hquery
      have hnext : windowsOf (source :: others) = window :: after :=
        List.append_cancel_left (hfound.symm.trans (hsame.trans hwindows))
      have hbarewindow : window.IsBare := by
        refine Window.isBare_of_readFrom hwindow (.newline more) hts hfrom ?_
        rintro other rfl
        exact (List.cons.inj hnext).1
      refine List.forall_mem_cons.mpr ⟨hbarewindow, ih (before ++ [window]) (by simpa using hwindows) ?_⟩
      exact List.forall_mem_append.mpr ⟨hbare, List.forall_mem_singleton.mpr hbarewindow⟩

end Query

/-! ### Constructors -/

/-- A term that can name a window or a stream: an IRI, or a variable of query text. -/
inductive Term.IsName : Term → Prop
  | iri (i : Iri) : IsName (.iri i)
  | variable {v : Variable} (h : (Token.variable v.name).Lexical) : IsName (.variable v)

theorem Term.IsName.names {term : Term} {prefixes : PrefixMapping} (h : term.IsName)
    (hprefixes : prefixes.Declared) : term.Names prefixes := by
  cases h with
  | iri i =>
      have hlexical : (Token.iri i.text).Lexical := .of_iri_chars i.isIriChar_of_mem
      exact names_of_resolve hprefixes hlexical (Term.ofIri_text i)
  | @«variable» v h => exact names_of_resolve hprefixes h (Term.ofVariable_name v)

/-- What the constructors put in a slot: a variable of query text, a duration of any lexical form that
is accepted, or a count. -/
inductive QueryReader.Measure.Constructs : Measure → Term → Prop
  | variable {measure : Measure} {v : Variable} (h : (Token.variable v.name).Lexical) :
      Constructs measure (.variable v)
  | duration {lexical : String} {term : Term} (h : Term.duration lexical = .ok term) :
      Constructs .duration term
  | count {n : Nat} (h : n < countLimit) : Constructs .count (.ofCount n)

theorem QueryReader.Measure.Constructs.holds {measure : Measure} {term : Term}
    (h : measure.Constructs term) : measure.Holds term := by
  cases h with
  | «variable» h => exact .variable h
  | @duration lexical _ h =>
      have hterm : durationTerm lexical = .ok term := mapError_eq_ok_iff.mpr h
      exact holds_of_durationTerm hterm
  | count h => exact .count h

/-- A window of the constructors. -/
structure Window.IsConstructed (window : Window) : Prop where
  id : window.id.IsName
  stream : window.stream.IsName
  slots : ∀ term ∈ window.frame.terms ++ window.step.toList, window.frame.measure.Constructs term

theorem Window.IsConstructed.reading {window : Window} {prefixes : PrefixMapping}
    (h : window.IsConstructed) (hprefixes : prefixes.Declared) : window.Reading prefixes where
  id := h.id.names hprefixes
  stream := h.stream.names hprefixes
  slots term hterm := (h.slots term hterm).holds

namespace Query

variable {text : String} {query query' : Query} {windows : List Window}

/-- What is known of a query that was read is known of it with constructed windows added. -/
theorem Reading.addWindows (h : query.Reading) (hconstructed : ∀ window ∈ windows, window.IsConstructed)
    (hadded : query.addWindows windows = .ok query') : query'.Reading := by
  have hids := nodup_addWindows hadded h.nodup
  obtain rfl := addWindows_eq_ok hadded
  refine ⟨h.prologue, h.output, h.form, h.operator, h.dataset, ?_, addWindows_of_nodup hids, h.pattern,
    ?_, h.lexical⟩
  · exact List.forall_mem_append.mpr ⟨h.declared, fun window hwindow =>
      (hconstructed window hwindow).reading h.prologue.prefixes⟩
  · intro hpattern
    obtain ⟨hform, hfrom, hmodifiers⟩ := h.missing hpattern
    exact ⟨hform, hfrom, fun hdataset hnone => hmodifiers hdataset (List.append_eq_nil_iff.mp hnone).1⟩

/-- Constructed windows that are added to a query of a text are read again from the text of the query,
under its declarations, just if no duration of a window has blanks around it or a minus sign. -/
theorem read_addWindows_iff (h : read text = .ok query)
    (hlabels : ∀ entry ∈ query.prologue.prefixes.entries, PrefixMapping.IsPlainLabel entry.1)
    (hruns : ∀ ts ∈ query.body.runs, Separable ts)
    (hconstructed : ∀ window ∈ windows, window.IsConstructed)
    (hadded : query.addWindows windows = .ok query') :
    (∃ found, read query'.nativeText = .ok found ∧ found.windows = query'.windows) ↔
      ∀ window ∈ query'.windows, window.IsBare := by
  have hreading := (reading_of_read h hlabels).addWindows hconstructed hadded
  have hruns' : ∀ ts ∈ query'.body.runs, Separable ts := by
    obtain rfl := addWindows_eq_ok hadded
    exact hruns
  refine ⟨?_, fun hbare => ⟨query', hreading.read_text hbare hruns', rfl⟩⟩
  rintro ⟨found, hread, hsame⟩
  exact isBare_of_read_nativeText hreading hruns' hread hsame

/-- A window of a given range over another stream than that of the hourly query. -/
def recent (range : Term) : Window :=
  ⟨.iri ⟨"http://a/v", by decide⟩, .iri ⟨"http://a/feed", by decide⟩, .logical range, none⟩

/-- The hourly query with that window. -/
def hourlyRecent (range : Term) : Query := { hourly with windows := hourly.windows ++ [recent range] }

theorem isConstructed_recent {lexical : String} {range : Term} (h : Term.duration lexical = .ok range) :
    (recent range).IsConstructed where
  id := .iri _
  stream := .iri _
  slots := List.forall_mem_singleton.mpr (.duration h)

theorem read_addWindows_fraction : ∃ range, Term.duration "P1DT0.5S" = .ok range ∧
    ∃ found, read (hourlyRecent range).nativeText = .ok found ∧
      found.windows = (hourlyRecent range).windows := by
  have hrange : Term.duration "P1DT0.5S" =
      .ok (.literal (.typed "P1DT0.5S" "http://www.w3.org/2001/XMLSchema#duration")) := by decide +kernel
  refine ⟨_, hrange, (read_addWindows_iff read_hourlyText (by decide +kernel) hourly_runs
    (List.forall_mem_singleton.mpr (isConstructed_recent hrange)) rfl).mpr ?_⟩
  refine List.forall_mem_cons.mpr ⟨fun _ => ?_, List.forall_mem_singleton.mpr fun _ => ?_⟩ <;>
  · refine List.forall_mem_singleton.mpr ?_
    rintro _ ⟨⟩
    decide

/-- The reader rejects a minus sign that the constructor of durations accepts, and a duration loses the
blanks around it. -/
theorem read_hourlyRecent_signed : ∃ signed blank plain, Term.duration "-PT5S" = .ok signed ∧
    hourly.addWindow (recent signed) = .ok (hourlyRecent signed) ∧
      (read (hourlyRecent signed).nativeText).toOption = none ∧
    Term.duration " PT5S" = .ok blank ∧ Term.duration "PT5S" = .ok plain ∧ blank ≠ plain ∧
      hourly.addWindow (recent blank) = .ok (hourlyRecent blank) ∧
        read (hourlyRecent blank).nativeText = .ok (hourlyRecent plain) :=
  ⟨.literal (.typed "-PT5S" "http://www.w3.org/2001/XMLSchema#duration"),
    .literal (.typed " PT5S" "http://www.w3.org/2001/XMLSchema#duration"),
    .literal (.typed "PT5S" "http://www.w3.org/2001/XMLSchema#duration"), by decide +kernel⟩

end Query

end StreamQuery
