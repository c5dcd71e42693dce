import StreamQuery.Proofs.Exchange.Window

/-! # Queries with values exchanged

A query is read as the query with what becomes of its windows and of its output stream, as long as its
windows still have names of their own.
-/

namespace StreamQuery

open Text Lexeme Token

/-! ### Names of window blocks -/

namespace Pattern

theorem windowNames_append (p other : Pattern) :
    (p.append other).windowNames = p.windowNames ++ other.windowNames := by
  induction p with
  | nil => rfl
  | run ts rest ih => exact ih
  | group inner rest _ ih => simp_all [windowNames, windowBlocks, append]
  | window name inner rest _ ih => simp_all [windowNames, windowBlocks, append]

theorem windowNames_pushToken (t : Token) (p : Pattern) :
    (p.pushToken t).windowNames = p.windowNames := by
  induction p with
  | nil => rfl
  | run ts rest ih => cases rest <;> first | rfl | exact ih
  | group inner rest _ ih => simp_all [windowNames, windowBlocks, pushToken]
  | window name inner rest _ ih => simp_all [windowNames, windowBlocks, pushToken]

end Pattern

namespace QueryReader

/-- The names of window blocks in an open group and in the groups around it. -/
def openNames (group : OpenGroup) : List OpenGroup → List Term
  | [] => group.members.windowNames
  | parent :: outer => group.window.toList ++ group.members.windowNames ++ openNames parent outer

theorem openNames_push (t : Token) (group : OpenGroup) (outer : List OpenGroup) :
    openNames (group.push t) outer = openNames group outer := by
  cases outer <;> simp [openNames, OpenGroup.push, Pattern.windowNames_pushToken]

theorem openNames_attach (parent group : OpenGroup) (outer : List OpenGroup) :
    ∀ name ∈ openNames group (parent :: outer), name ∈ openNames (parent.attach group) outer := by
  have hmembers : (parent.attach group).members.windowNames =
      parent.members.windowNames ++ (group.window.toList ++ group.members.windowNames) := by
    rw [OpenGroup.attach, Pattern.windowNames_append]
    cases group.window <;> simp [Pattern.windowNames, Pattern.windowBlocks]
  have hwindow : (parent.attach group).window = parent.window := rfl
  cases outer <;> simp [openNames, hmembers, hwindow] <;> grind

variable {prefixes : PrefixMapping} {p : Pattern} {ts rest : List Token} {group : OpenGroup}
  {outer : List OpenGroup}

/-- The blocks of open groups are blocks of the pattern that is read. -/
theorem GroupReading.mem_windowNames (h : GroupReading prefixes p rest group outer ts) :
    ∀ name ∈ openNames group outer, name ∈ p.windowNames := by
  induction h with
  | done hclose hp => exact fun name hname => hp ▸ hname
  | close hclose _ ih => exact fun name hname => ih name (openNames_attach _ _ _ name hname)
  | opened hopen _ ih => exact fun name hname => ih name (List.mem_append_right _ hname)
  | window hword hname hbrace _ ih => exact fun name hname => ih name (List.mem_append_right _ hname)
  | join hjoins _ ih => exact fun name hname => ih name ((openNames_push _ _ _).symm ▸ hname)

/-! ### Groups -/

theorem joinsRun_of_isInert {t : Token} (h : t.IsInert) (ts : List Token) : JoinsRun t ts where
  not_close := Bool.eq_false_iff.mp (h.punct _)
  not_open := Bool.eq_false_iff.mp (h.punct _)
  not_window hword := by
    rw [h.word _ (by decide)] at hword
    cases hword

/-- Tokens without a meaning join the run of a group. -/
theorem GroupReading.behind_inert {old : List Token} (hold : ∀ t ∈ old, t.IsInert)
    (h : GroupReading prefixes p rest group outer (old ++ ts)) :
    ∃ group', GroupReading prefixes p rest group' outer ts := by
  induction old generalizing group with
  | nil => exact ⟨group, h⟩
  | cons t old ih =>
      obtain ⟨ht, hold⟩ := List.forall_mem_cons.mp hold
      have hpunct : ∀ {mark}, ¬ t.isPunct mark := Bool.eq_false_iff.mp (ht.punct _)
      have hwindow : ¬ t.isWord "WINDOW" := Bool.eq_false_iff.mp (ht.word _ (by decide))
      rw [List.cons_append] at h
      generalize hall : old ++ ts = all at h
      cases h with
      | join hjoins hrest => exact ih hold (hall ▸ hrest)
      | window hword => exact absurd hword hwindow
      | done hmark => exact absurd hmark hpunct
      | close hmark => exact absurd hmark hpunct
      | opened hmark => exact absurd hmark hpunct

theorem GroupReading.inert_append {new : List Token} (hnew : ∀ t ∈ new, t.IsInert)
    (h : GroupReading prefixes p rest (new.foldl OpenGroup.push group) outer ts) :
    GroupReading prefixes p rest group outer (new ++ ts) := by
  induction new generalizing group with
  | nil => exact h
  | cons t new ih =>
      obtain ⟨ht, hnew⟩ := List.forall_mem_cons.mp hnew
      exact .join (joinsRun_of_isInert ht _) (ih hnew h)

/-! ### Patterns -/

/-- Reads a group in braces as the pattern of a query. -/
def readBraces (prefixes : PrefixMapping) (hasWhere : Bool) (ts : List Token) :
    Except ParseError (Bool × Option Pattern × List Token) := do
  let rest ← expectPunct "\x7b" ts
  let (pattern, rest) ← readGroup prefixes (.start none) [] rest
  return (hasWhere, some pattern, rest)

theorem readPattern_where {keyword : Token} (h : keyword.isWord "WHERE") :
    readPattern prefixes (keyword :: ts) = readBraces prefixes true ts := by
  have hskip : skipWord "WHERE" (keyword :: ts) = ts := if_pos h
  rw [readPattern, hskip, List.head?_cons, Option.any_some, h]
  rfl

theorem readPattern_open {mark : Token} (h : mark.isPunct "\x7b") :
    readPattern prefixes (mark :: ts) = readBraces prefixes false (mark :: ts) := by
  obtain rfl := eq_punct_of_isPunct h
  rfl

theorem readPattern_of_not (hwhere : ∀ t ∈ ts.head?, ¬ t.isWord "WHERE")
    (hopen : ∀ t ∈ ts.head?, ¬ t.isPunct "\x7b") : readPattern prefixes ts = .ok (false, none, ts) := by
  cases ts with
  | nil => rfl
  | cons t ts =>
      have hskip : skipWord "WHERE" (t :: ts) = t :: ts := if_neg (hwhere t rfl)
      rw [readPattern, hskip, List.head?_cons, Option.any_some, Option.any_some,
        Bool.eq_false_iff.mpr (hwhere t rfl), Bool.eq_false_iff.mpr (hopen t rfl)]
      rfl

namespace Exchange

variable {names : Term → Term → Prop} {slots : Measure → Term → Term → Prop}
  {R : List Token → List Token → Prop} (hR : Exchange prefixes names slots R)
  {t u : Token} {us : List Token}

include hR

/-- What joins the run of a group still joins it. -/
theorem joinsRun (h : JoinsRun t ts) (hts : R (t :: ts) (t :: us)) (hrest : R ts us) : JoinsRun t us where
  not_close := h.not_close
  not_open := h.not_open
  not_window hword name brace others heq hbrace := by
    subst heq
    cases ts with
    | nil => cases hR.nil hrest
    | cons second ts =>
        obtain ⟨u, new, us, heq, hbehind, hnew⟩ := hR.header hword hts
        obtain ⟨rfl, hothers⟩ := List.cons_eq_cons.mp (List.cons_eq_cons.mp heq).2
        cases new with
        | cons w new =>
            cases hothers
            rw [(hnew _ List.mem_cons_self).punct] at hbrace
            cases hbrace
        | nil =>
            obtain rfl : brace :: others = us := hothers
            cases ts with
            | nil => cases hR.nil hbehind
            | cons third ts =>
                rcases hR.cons hbehind with ⟨us, heq, -⟩ | ⟨-, -, hnew, -⟩
                · cases heq
                  exact h.not_window hword second brace ts rfl hbrace
                · rw [(hnew _ List.mem_cons_self).punct] at hbrace
                  cases hbrace

/-- A group is read from what its tokens have given way to. -/
theorem groupReading (hnames : ∀ name ∈ p.windowNames, ∃ name', names name name')
    (h : GroupReading prefixes p rest group outer ts) (hts : R ts us) :
    ∀ group' outer', outer'.length = outer.length →
      ∃ p' rest', GroupReading prefixes p' rest' group' outer' us ∧ R rest rest' := by
  -- a value may be more than one token, so the induction is on the number of tokens
  obtain ⟨n, hn⟩ : ∃ n, ts.length ≤ n := ⟨_, Nat.le_refl _⟩
  induction n generalizing group outer ts us with
  | zero =>
      obtain rfl := List.eq_nil_of_length_eq_zero (Nat.le_zero.mp hn)
      cases h
  | succ n ih =>
      intro group' outer' houter
      cases h with
      | done hclose hp =>
          obtain ⟨us, rfl, hrest⟩ := hR.keep (not_isValue_of_isPunct hclose) hts
          obtain rfl := List.eq_nil_of_length_eq_zero houter
          exact ⟨_, us, .done hclose rfl, hrest⟩
      | @close _ parent outer token ts hclose hinner =>
          obtain ⟨us, rfl, hrest⟩ := hR.keep (not_isValue_of_isPunct hclose) hts
          cases outer' with
          | nil => cases houter
          | cons parent' outer' =>
              obtain ⟨p', rest', hread, hbehind⟩ := ih hinner hrest (Nat.le_of_succ_le_succ hn)
                (parent'.attach group') outer' (Nat.succ.inj houter)
              exact ⟨p', rest', .close hclose hread, hbehind⟩
      | opened hopen hinner =>
          obtain ⟨us, rfl, hrest⟩ := hR.keep (not_isValue_of_isPunct hopen) hts
          obtain ⟨p', rest', hread, hbehind⟩ := ih hinner hrest (Nat.le_of_succ_le_succ hn)
            (.start none) (group' :: outer') (congrArg Nat.succ houter)
          exact ⟨p', rest', .opened hopen hread, hbehind⟩
      | @window _ _ token name brace ts term hword hname hbrace hinner =>
          obtain ⟨name', hname'⟩ := hnames term (hinner.mem_windowNames term (by simp [openNames, OpenGroup.start]))
          obtain ⟨_, rfl, hheader⟩ := hR.keep (not_isValue_of_isWord hword) hts
          obtain ⟨u, _, rfl, hopening, hu⟩ := hR.name hheader hname hname'
          obtain ⟨us, rfl, hrest⟩ := hR.keep (not_isValue_of_isPunct hbrace) hopening
          simp only [List.length_cons] at hn
          obtain ⟨p', rest', hread, hbehind⟩ := ih hinner hrest (by omega)
            (.start (some name')) (group' :: outer') (congrArg Nat.succ houter)
          exact ⟨p', rest', .window hword hu hbrace hread, hbehind⟩
      | @join _ _ token ts hjoins hinner =>
          simp only [List.length_cons] at hn
          rcases hR.cons hts with ⟨us, rfl, hrest⟩ | @⟨_, u, old, new, ts, us, ht, hold, hnew, hmark, hrest⟩
          · obtain ⟨p', rest', hread, hbehind⟩ := ih hinner hrest (by omega) (group'.push token) outer' houter
            exact ⟨p', rest', .join (hR.joinsRun hjoins hts hrest) hread, hbehind⟩
          · obtain ⟨others, hothers⟩ := hinner.behind_inert hold
            rw [List.length_append] at hn
            obtain ⟨p', rest', hread, hbehind⟩ := ih hothers hrest (by omega)
              ((u :: new).foldl OpenGroup.push group') outer' houter
            exact ⟨p', rest', .inert_append hnew hread, hbehind⟩

theorem readGroup (hnames : ∀ name ∈ p.windowNames, ∃ name', names name name')
    (h : readGroup prefixes (.start none) [] ts = .ok (p, rest)) (hts : R ts us) :
    ∃ p' rest', QueryReader.readGroup prefixes (.start none) [] us = .ok (p', rest') ∧ R rest rest' := by
  obtain ⟨p', rest', hread, hrest⟩ := hR.groupReading hnames (.of_readGroup h) hts (.start none) [] rfl
  exact ⟨p', rest', hread.readGroup_eq, hrest⟩

theorem readBraces {hasWhere hasWhere' : Bool} {pattern : Option Pattern}
    (h : readBraces prefixes hasWhere ts = .ok (hasWhere', pattern, rest)) (hts : R ts us)
    (hnames : ∀ p ∈ pattern, ∀ name ∈ p.windowNames, ∃ name', names name name') :
    ∃ pattern' rest', QueryReader.readBraces prefixes hasWhere us = .ok (hasWhere', pattern', rest') ∧
      R rest rest' ∧ pattern'.isSome = pattern.isSome := by
  obtain ⟨_, hopening, h⟩ := bind_eq_ok_iff.mp h
  obtain ⟨⟨p, last⟩, hgroup, heq⟩ := bind_eq_ok_iff.mp h
  cases heq
  obtain ⟨_, hopening', hinner⟩ := hR.expectPunct hopening hts
  obtain ⟨p', rest', hgroup', hrest⟩ := hR.readGroup (hnames p rfl) hgroup hinner
  exact ⟨some p', rest', bind_eq_ok_iff.mpr ⟨_, hopening', bind_eq_ok_iff.mpr ⟨_, hgroup', rfl⟩⟩, hrest, rfl⟩

theorem readPattern {hasWhere : Bool} {pattern : Option Pattern}
    (h : readPattern prefixes ts = .ok (hasWhere, pattern, rest)) (hts : R ts us)
    (hnames : ∀ p ∈ pattern, ∀ name ∈ p.windowNames, ∃ name', names name name') :
    ∃ pattern' rest', QueryReader.readPattern prefixes us = .ok (hasWhere, pattern', rest') ∧
      R rest rest' ∧ pattern'.isSome = pattern.isSome := by
  by_cases hwhere : ∀ t ∈ ts.head?, ¬ t.isWord "WHERE"
  · have hwhere' := hR.not_head? (fun t ht => ht.word "WHERE" (by decide)) hts hwhere
    by_cases hopen : ∀ t ∈ ts.head?, ¬ t.isPunct "\x7b"
    · have hopen' := hR.not_head? (fun t ht => ht.punct "\x7b") hts hopen
      rw [readPattern_of_not hwhere hopen] at h
      cases h
      exact ⟨none, us, readPattern_of_not hwhere' hopen', hts, rfl⟩
    · obtain ⟨mark, hmark, hpunct⟩ : ∃ t ∈ ts.head?, t.isPunct "\x7b" := by simpa using hopen
      obtain ⟨ts, rfl⟩ := List.head?_eq_some_iff.mp hmark
      obtain ⟨us, rfl, -⟩ := hR.keep (not_isValue_of_isPunct hpunct) hts
      rw [readPattern_open hpunct] at h ⊢
      exact hR.readBraces h hts hnames
  · obtain ⟨keyword, hkeyword, hword⟩ : ∃ t ∈ ts.head?, t.isWord "WHERE" := by simpa using hwhere
    obtain ⟨ts, rfl⟩ := List.head?_eq_some_iff.mp hkeyword
    obtain ⟨us, rfl, hbehind⟩ := hR.keep (not_isValue_of_isWord hword) hts
    rw [readPattern_where hword] at h ⊢
    exact hR.readBraces h hbehind hnames

end Exchange

theorem checkPattern_of_form {form form' : ResultForm} {hasWhere : Bool} {pattern pattern' : Option Pattern}
    {rest rest' : List Token} (h : checkPattern form hasWhere pattern rest = .ok ())
    (hform : form'.form = form.form) (hconstruct : form' = .construct none → form = .construct none)
    (hpattern : pattern'.isSome = pattern.isSome) :
    checkPattern form' hasWhere pattern' rest' = .ok () := by
  cases pattern with
  | none =>
      obtain ⟨targets, rfl⟩ := checkPattern_spec h rfl
      cases form' <;> cases hform
      cases pattern' <;> cases hpattern
      rfl
  | some p =>
      cases pattern' <;> cases hpattern
      cases form' with
      | construct template =>
          cases template with
          | none =>
              obtain rfl := hconstruct rfl
              cases hasWhere with
              | false => cases h
              | true => rfl
          | some template => rfl
      | _ => rfl

theorem lexical_afterResult {ts afterFirst afterRegister afterPrologue afterResult : List Token}
    {first prologue : Prologue} {register : Option (Token × OutputOperator)} {form : ResultForm}
    {operator : OutputOperator} (hfirst : readPrologue .empty ts = .ok (first, afterFirst))
    (hregister : readRegister afterFirst = .ok (register, afterRegister))
    (hprologue : readPrologue first afterRegister = .ok (prologue, afterPrologue))
    (hresult : readResult afterPrologue = .ok (form, operator, afterResult))
    (hts : ∀ t ∈ ts, t.Lexical) : ∀ t ∈ afterResult, t.Lexical := by
  obtain ⟨hdeclared, hlexfirst, -⟩ := readPrologue_spec hfirst .empty hts
  obtain ⟨-, hlexregister, -⟩ := readRegister_spec hregister hlexfirst
  obtain ⟨-, hlexprologue, -⟩ := readPrologue_spec hprologue hdeclared hlexregister
  have hlexsplit := lexical_splitResult hlexprologue
  rw [(readResult_spec hresult).2] at hlexsplit
  exact hlexsplit.2

/-- What becomes of windows is what becomes of the clauses that declare them. -/
theorem exists_sourcesExchanged {names : Term → Term → Prop} {slots : Measure → Term → Term → Prop}
    {sources : List (DatasetClause ⊕ Window)} {windows : List Window}
    (h : List.Forall₂ (WindowExchanged names slots) (windowsOf sources) windows) :
    ∃ sources', List.Forall₂ (SourceExchanged names slots) sources sources' ∧
      datasetOf sources' = datasetOf sources ∧ windowsOf sources' = windows := by
  induction sources generalizing windows with
  | nil =>
      cases h
      exact ⟨[], .nil, rfl, rfl⟩
  | cons source sources ih =>
      cases source with
      | inl clause =>
          obtain ⟨sources', hexchanged, hdataset, hwindows⟩ := ih h
          exact ⟨.inl clause :: sources', .cons (.graph clause) hexchanged,
            congrArg (clause :: ·) hdataset, hwindows⟩
      | inr window =>
          cases h with
          | cons hwindow hrest =>
              obtain ⟨sources', hexchanged, hdataset, hwindows⟩ := ih hrest
              exact ⟨.inr _ :: sources', .cons (.window hwindow) hexchanged, hdataset,
                congrArg (_ :: ·) hwindows⟩

/-- A query that was read, and the query that is read when some of its values have been exchanged. -/
structure QueryExchanged (names : Term → Term → Prop) (slots : Measure → Term → Term → Prop)
    (query query' : Query) : Prop where
  prologue : query'.prologue = query.prologue
  form : query'.form = query.form
  dataset : query'.body.dataset = query.body.dataset
  windows : List.Forall₂ (WindowExchanged names slots) query.windows query'.windows
  output : Option.Rel names query.output query'.output
  operator : query'.operator = query.operator

namespace Exchange

variable {names : Term → Term → Prop} {slots : Measure → Term → Term → Prop}
  {R : List Token → List Token → Prop} {ts us : List Token} {query : Query}
  {windows : List Window} {output : Option Term}

/-- The output stream is registered and declared as what becomes of it. -/
theorem readRegister_declared {declared query : Query} {spoken : OutputOperator}
    {register : Option (Token × OutputOperator)} {rest : List Token} {output : Option Term}
    {prefixes : PrefixMapping} (hR : Exchange prefixes names slots R)
    (hregister : readRegister ts = .ok (register, rest))
    (hdeclare : declareOutput declared spoken register = .ok query)
    (hprefixes : declared.prologue.prefixes = prefixes) (hnone : declared.output = none)
    (houtput : Option.Rel names query.output output) (hts : R ts us) :
    ∃ register' rest', readRegister us = .ok (register', rest') ∧ R rest rest' ∧
      ∀ declared' : Query, declared'.prologue.prefixes = prefixes → declared'.output = none →
        declareOutput declared' spoken register' =
          .ok { declared' with output := output, operator := query.operator } := by
  subst hprefixes
  cases register with
  | none =>
      cases hdeclare
      obtain ⟨rest', hread, hrest⟩ := hR.readRegister_none hregister hts
      refine ⟨none, rest', hread, hrest, fun declared' _ hnone' => ?_⟩
      have hout : output = none := by
        dsimp only [Query.setOutputOperator] at houtput
        rw [hnone] at houtput
        cases houtput
        rfl
      rw [hout, ← hnone']
      rfl
  | some registered =>
      obtain ⟨name, operator⟩ := registered
      obtain ⟨stream, hstream, heq⟩ := bind_eq_ok_iff.mp hdeclare
      cases heq
      cases houtput with
      | some hstreamname =>
          obtain ⟨u, rest', hread, hrest, hu⟩ :=
            hR.readRegister_some hregister hts hstream hstreamname
          refine ⟨some (u, operator), rest', hread, hrest, fun declared' hprefixes' _ => ?_⟩
          exact bind_eq_ok_iff.mpr ⟨_, by rwa [hprefixes'], rfl⟩

/-- A query is read with other tokens in the place of its values, if they can be read there and windows
keep names of their own. -/
theorem readQuery (hR : Exchange query.prologue.prefixes names slots R)
    (h : readQuery ts = .ok query) (hts : R ts us)
    (hprefixes : query.prologue.prefixes.Declared)
    (hlexical : ∀ t ∈ ts, t.Lexical) (hlexical' : ∀ u ∈ us, u.Lexical)
    (hwindows : List.Forall₂ (WindowExchanged names slots) query.windows windows)
    (hids : (windows.map Window.id).Nodup) (houtput : Option.Rel names query.output output)
    (hblocks : ∀ p ∈ query.body.pattern, ∀ name ∈ p.windowNames, ∃ name', names name name') :
    ∃ query', QueryReader.readQuery us = .ok query' ∧ QueryExchanged names slots query query' ∧
      query'.windows = windows ∧ query'.output = output := by
  obtain ⟨⟨first, afterFirst⟩, hfirst, h⟩ := bind_eq_ok_iff.mp h
  obtain ⟨⟨register, afterRegister⟩, hregister, h⟩ := bind_eq_ok_iff.mp h
  obtain ⟨⟨prologue, afterPrologue⟩, hprologue, h⟩ := bind_eq_ok_iff.mp h
  obtain ⟨⟨form, operator, afterResult⟩, hresult, h⟩ := bind_eq_ok_iff.mp h
  obtain ⟨⟨sources, afterSources⟩, hsources, h⟩ := bind_eq_ok_iff.mp h
  obtain ⟨⟨hasWhere, pattern, modifiers⟩, hpattern, h⟩ := bind_eq_ok_iff.mp h
  obtain ⟨_, hcheck, h⟩ := bind_eq_ok_iff.mp h
  obtain ⟨declared, hdeclared, h⟩ := bind_eq_ok_iff.mp h
  rw [mapError_eq_ok_iff] at hdeclared
  obtain rfl := Query.addWindows_eq_ok hdeclared
  obtain ⟨_, _, rfl, -⟩ := declareOutput_spec h rfl
  obtain ⟨afterFirst', hfirst', hafterFirst⟩ := hR.readPrologue hfirst hts
  obtain ⟨register', afterRegister', hregister', hafterRegister, hdeclare⟩ :=
    hR.readRegister_declared hregister h rfl rfl houtput hafterFirst
  obtain ⟨afterPrologue', hprologue', hafterPrologue⟩ := hR.readPrologue hprologue hafterRegister
  obtain ⟨form', afterResult', hresult', hafterResult, hform, hconstruct⟩ :=
    hR.readResult hresult hafterPrologue
  obtain ⟨sources', hexchanged, hdataset, rfl⟩ := exists_sourcesExchanged hwindows
  obtain ⟨afterSources', hsources', hafterSources⟩ := hR.readSources hprefixes hsources hafterResult
    (lexical_afterResult hfirst hregister hprologue hresult hlexical)
    (lexical_afterResult hfirst' hregister' hprologue' hresult' hlexical') (Nat.le_refl _) (Nat.le_refl _)
    hexchanged
  obtain ⟨pattern', modifiers', hpattern', -, hsome⟩ := hR.readPattern hpattern hafterSources hblocks
  have hcheck' := @checkPattern_of_form _ _ _ _ _ _ modifiers' hcheck hform hconstruct hsome
  have hdeclared' := @Query.addWindows_of_nodup
    (.ofBody prologue ⟨form', datasetOf sources', pattern', modifiers'⟩) _ hids
  exact ⟨_, bind_eq_ok_iff.mpr ⟨_, hfirst', bind_eq_ok_iff.mpr ⟨_, hregister', bind_eq_ok_iff.mpr
    ⟨_, hprologue', bind_eq_ok_iff.mpr ⟨_, hresult', bind_eq_ok_iff.mpr ⟨_, hsources', bind_eq_ok_iff.mpr
      ⟨_, hpattern', bind_eq_ok_iff.mpr ⟨_, hcheck', bind_eq_ok_iff.mpr
        ⟨_, mapError_eq_ok_iff.mpr hdeclared', hdeclare _ rfl rfl⟩⟩⟩⟩⟩⟩⟩⟩,
    ⟨rfl, hform, hdataset, hwindows, houtput, rfl⟩, rfl, rfl⟩

end Exchange

end QueryReader

end StreamQuery
