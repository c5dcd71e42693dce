import StreamQuery.Proofs.Dialect.Clause
import StreamQuery.Proofs.Pattern.Graphs
import StreamQuery.Proofs.Query.RoundTrip

/-! # The tokens of projected queries

The restrictive dialects print the body of a query as it stands: its result, its graphs, its pattern and
its modifiers come out token by token, with the clauses of the planned windows in between. Only the
headers of window blocks are left out, or replaced by those of the dialect.
-/

namespace StreamQuery

open Text Lexeme Token Projecting

/-! ### Planned windows -/

theorem Term.Names.lexical_token {prefixes : PrefixMapping} {term : Term}
    (hprefixes : prefixes.Declared) (h : term.Names prefixes) : term.token.Lexical := by
  have hlexical := h.lexical
  rcases QueryReader.resolve_cases h.resolves with
    ⟨i, rfl, hname⟩ | ⟨i, text, rfl, hname, hfull⟩ | ⟨v, rfl, -⟩
  · rwa [hname] at hlexical
  · rw [hname] at hlexical
    exact .of_iri_chars (QueryReader.isIriChar_of_expand? hprefixes.spaces hlexical hfull)
  · exact hlexical

theorem QueryReader.Measure.Fits.lexical_token {measure : QueryReader.Measure} {term : Term}
    (h : measure.Fits term) (hvariable : term.isVariable) : term.token.Lexical := by
  cases h with
  | «variable» h => exact h
  | duration => cases hvariable
  | count => cases hvariable

namespace Window

variable {caps : Capabilities} {minStep : Duration} {window covering : Window}

theorem Reading.utterable {prefixes : PrefixMapping} (hprefixes : prefixes.Declared)
    (h : window.Reading prefixes) : window.Utterable where
  stream := h.stream.lexical_token hprefixes
  slots term hterm hvariable := by
    have hbare : term.IsBare := by
      rintro l rfl
      cases hvariable
    exact ((h.slots term hterm).fits fun _ => hbare).lexical_token hvariable

theorem Utterable.adapted {adapted : Window} (h : window.Utterable)
    (hadapted : window.adapted? caps = some adapted) : adapted.Utterable := by
  unfold adapted? at hadapted
  split at hadapted
  · cases hadapted
    exact h
  · unfold asLogical? at hadapted
    split at hadapted
    · next start stop hframe =>
      split at hadapted
      · split at hadapted
        · cases hadapted
          obtain ⟨hslots, hsteps⟩ := List.forall_mem_append.mp h.slots
          refine ⟨h.stream, List.forall_mem_append.mpr ⟨?_, hsteps⟩⟩
          rw [hframe] at hslots
          exact List.forall_mem_singleton.mpr (hslots start List.mem_cons_self)
        · cases hadapted
      · cases hadapted
    · cases hadapted

/-- A variable in a slot that covers another one stands in the other one as well. -/
theorem lexical_of_covers {scalar : Scalar} {widening : Widening} {term term' : Term}
    (h : scalar.Covers widening term term') (hterm : term.isVariable → term.token.Lexical) :
    term'.isVariable → term'.token.Lexical := by
  intro hvariable
  obtain rfl := h.eq_of_isVariable (.inr hvariable)
  exact hterm hvariable

theorem Utterable.covers (h : window.Utterable) (hcovers : Covers minStep window covering) :
    covering.Utterable := by
  obtain ⟨hslots, hsteps⟩ := List.forall_mem_append.mp h.slots
  refine ⟨?_, List.forall_mem_append.mpr ⟨?_, ?_⟩⟩
  · rw [hcovers.stream]
    exact h.stream
  · have hframe := hcovers.frame
    revert hslots hframe
    generalize window.frame = frame
    generalize covering.frame = frame'
    intro hslots hframe
    cases hframe with
    | logical hrange =>
        exact List.forall_mem_singleton.mpr
          (lexical_of_covers hrange (hslots _ List.mem_cons_self))
    | past hstart hstop =>
        obtain ⟨hfirst, hlast⟩ := List.forall_mem_cons.mp hslots
        exact List.forall_mem_cons.mpr ⟨lexical_of_covers hstart hfirst,
          List.forall_mem_singleton.mpr (lexical_of_covers hstop (hlast _ List.mem_cons_self))⟩
    | physical hitems =>
        exact List.forall_mem_singleton.mpr
          (lexical_of_covers hitems (hslots _ List.mem_cons_self))
  · -- a step can be new, but then it is the smallest one and no variable
    have hstep := hcovers.step
    revert hsteps hstep
    generalize window.step = step
    generalize covering.step = step'
    intro hsteps hstep
    cases hstep with
    | absent => nofun
    | present hcovered =>
        refine List.forall_mem_singleton.mpr (lexical_of_covers hcovered ?_)
        cases step with
        | some given => exact hsteps given (by simp)
        | none => cases scalarOfKind window.kind <;> nofun

end Window

namespace Plan

variable {caps : Capabilities} {query : Query} {plan : Plan}

/-- The windows of a plan can be written if those of the query can. -/
theorem Follows.utterable (h : Follows caps query plan)
    (hwindows : ∀ window ∈ query.windows, window.Utterable) :
    ∀ window ∈ plan.windows, window.Utterable := by
  obtain ⟨adapted, hadapted, hmerged⟩ := h.windows
  have hall : ∀ window ∈ adapted, window.Utterable := by
    intro window hwindow
    obtain ⟨source, hsource, hspec, -⟩ := exists_of_mem_right hadapted hwindow
    exact (hwindows source hsource).adapted hspec
  by_cases hone : caps.windowsPerStream = some 1
  · obtain ⟨-, -, hcovering⟩ := hmerged.covers hone
    intro planned hplanned
    obtain ⟨window, hwindow, hcovers⟩ := hcovering planned hplanned
    exact (hall window hwindow).covers hcovers
  · rw [Merged, if_neg hone] at hmerged
    rw [hmerged]
    exact fun window hwindow => hall window ((Window.sorted_perm adapted).mem_iff.mp hwindow)

end Plan

/-! ### Patterns without graphs in windows -/

/-- A run that a text can hold: tokens that are told apart. -/
structure Token.Run (ts : List Token) : Prop where
  lexical : ∀ t ∈ ts, t.Lexical
  separable : Separable ts

namespace Token.Run

variable {ts us : List Token}

theorem of_isPrefix (h : Run ts) (hus : us <+: ts) : Run us :=
  ⟨fun t ht => h.lexical t (hus.subset ht), h.separable.of_isInfix hus.isInfix⟩

/-- What stands in a list with one more token stood there before, or ends with the token. -/
theorem infix_or_getLast? {last : Token} (h : us <:+: ts ++ [last]) :
    us <:+: ts ∨ us = [] ∨ us.getLast? = some last := by
  rcases List.infix_concat_iff.mp h with hsuffix | hwithin
  · rcases List.suffix_concat_iff.mp hsuffix with rfl | ⟨init, rfl, -⟩
    · exact .inr (.inl rfl)
    · exact .inr (.inr (by simp))
  · exact .inl hwithin

/-- A dot does not run together with anything. -/
theorem concat_dot (h : Run ts) : Run (ts ++ [.punct "."]) where
  lexical := List.forall_mem_append.mpr
    ⟨h.lexical, List.forall_mem_singleton.mpr (.punct (by decide))⟩
  separable := by
    refine ⟨fun now next hwithin hnow => ?_, fun hwithin => ?_⟩
    · rcases infix_or_getLast? hwithin with hwithin | hnil | hlast
      · exact h.separable.hyphen now next hwithin hnow
      · cases hnil
      · cases hlast
        rfl
    · rcases infix_or_getLast? hwithin with hwithin | hnil | hlast
      · exact h.separable.caret hwithin
      · cases hnil
      · cases hlast

end Token.Run

namespace Pattern

variable {p done done' : Pattern}

/-- A pattern all of whose runs a text can hold. -/
def Sound (p : Pattern) : Prop := ∀ ts ∈ p.runs, Token.Run ts

theorem sound_nil : nil.Sound := nofun

theorem sound_run {ts : List Token} : (run ts p).Sound ↔ Token.Run ts ∧ p.Sound :=
  List.forall_mem_cons

theorem sound_group {inner : Pattern} : (group inner p).Sound ↔ inner.Sound ∧ p.Sound :=
  List.forall_mem_append

theorem sound_window {name : Term} {inner : Pattern} :
    (window name inner p).Sound ↔ inner.Sound ∧ p.Sound :=
  List.forall_mem_append

theorem Sound.reverseOnto (h : p.Sound) (hdone : done.Sound) : (p.reverseOnto done).Sound := by
  induction p generalizing done with
  | nil => exact hdone
  | run ts rest ih =>
      obtain ⟨hrun, hrest⟩ := sound_run.mp h
      exact ih hrest (sound_run.mpr ⟨hrun, hdone⟩)
  | group inner rest _ ih =>
      obtain ⟨hinner, hrest⟩ := sound_group.mp h
      exact ih hrest (sound_group.mpr ⟨hinner, hdone⟩)
  | window name inner rest _ ih =>
      obtain ⟨hinner, hrest⟩ := sound_window.mp h
      exact ih hrest (sound_window.mpr ⟨hinner, hdone⟩)

theorem Sound.terminate (h : p.Sound) : p.terminate.Sound := by
  cases p with
  | run ts rest =>
      obtain ⟨hrun, hrest⟩ := sound_run.mp h
      rw [Pattern.terminate]
      split
      · split
        · exact h
        · exact sound_run.mpr ⟨hrun.concat_dot, hrest⟩
      · exact h
  | _ => exact h

theorem isPrefix_of_splitGraphHeader? {ts before : List Token} {graph : Token}
    (h : splitGraphHeader? ts = some (before, graph)) : before <+: ts := by
  obtain ⟨keyword, rfl, -⟩ := eq_of_splitGraphHeader? h
  exact List.prefix_append _ _

theorem Sound.takeGraphHeader? {graph : Token} (h : done.Sound)
    (htake : done.takeGraphHeader? = some (graph, done')) : done'.Sound := by
  cases done with
  | run ts rest =>
      obtain ⟨hrun, hrest⟩ := sound_run.mp h
      obtain ⟨⟨before, graph'⟩, hsplit, heq⟩ := Option.map_eq_some_iff.mp htake
      cases heq
      split
      · exact hrest
      · exact sound_run.mpr ⟨hrun.of_isPrefix (isPrefix_of_splitGraphHeader? hsplit), hrest⟩
  | _ => cases htake

/-- Where the headers of graphs are taken out, what remains of a run is told apart as before. -/
theorem Sound.stripGraphsOnto (inside : Option Term) (hdone : done.Sound) (h : p.Sound) :
    (Pattern.stripGraphsOnto inside done p).1.Sound := by
  induction p generalizing inside done with
  | nil => exact hdone.reverseOnto sound_nil
  | run ts rest ih =>
      obtain ⟨hrun, hrest⟩ := sound_run.mp h
      exact ih inside (sound_run.mpr ⟨hrun, hdone⟩) hrest
  | group inner rest ihinner ihrest =>
      obtain ⟨hinner, hrest⟩ := sound_group.mp h
      have hstripped := ihinner inside sound_nil hinner
      rw [Pattern.stripGraphsOnto]
      dsimp only
      split
      · next enclosing graph done' htake =>
        -- the header of the group is the end of the run before it, which is done already
        have hbefore := (hdone.takeGraphHeader? htake).terminate
        exact ihrest _ (hstripped.reverseOnto hbefore).terminate hrest
      · exact ihrest _ (sound_group.mpr ⟨hstripped, hdone⟩) hrest
  | window name inner rest ihinner ihrest =>
      obtain ⟨hinner, hrest⟩ := sound_window.mp h
      have hstripped := ihinner (some name) sound_nil hinner
      exact ihrest inside (sound_window.mpr ⟨hstripped, hdone⟩) hrest

theorem Sound.withoutWindowGraphs (h : p.Sound) : p.withoutWindowGraphs.1.Sound :=
  sound_nil.stripGraphsOnto none h

end Pattern

/-! ### Bodies and clauses -/

/-- A body without the named graphs inside its windows. -/
def QueryBody.withoutWindowGraphs (body : QueryBody) : QueryBody :=
  { body with pattern := body.pattern.map fun pattern => pattern.withoutWindowGraphs.1 }

theorem QueryBody.Spoken.sound {body : QueryBody} (h : body.Spoken) :
    ∀ pattern ∈ body.pattern, pattern.Sound := by
  intro pattern hpattern ts hts
  refine ⟨h.pattern pattern hpattern ts hts, h.runs ts ?_⟩
  refine List.mem_append_left _ (List.mem_append_right _ ?_)
  exact List.mem_flatMap.mpr ⟨pattern, Option.mem_toList.mpr hpattern, hts⟩

theorem QueryBody.Spoken.withoutWindowGraphs {body : QueryBody} (h : body.Spoken) :
    body.withoutWindowGraphs.Spoken := by
  have hsound : ∀ pattern ∈ body.withoutWindowGraphs.pattern, pattern.Sound := by
    intro pattern hpattern
    obtain ⟨before, hbefore, rfl⟩ := Option.map_eq_some_iff.mp hpattern
    exact (h.sound before hbefore).withoutWindowGraphs
  refine ⟨h.form, h.dataset, fun pattern hpattern ts hts => (hsound pattern hpattern ts hts).lexical,
    h.modifiers, List.forall_mem_append.mpr ⟨List.forall_mem_append.mpr ⟨?_, ?_⟩, ?_⟩⟩
  · exact fun ts hts => h.runs ts (List.mem_append_left _ (List.mem_append_left _ hts))
  · intro ts hts
    obtain ⟨pattern, hpattern, hts⟩ := List.mem_flatMap.mp hts
    exact (hsound pattern (Option.mem_toList.mp hpattern) ts hts).separable
  · exact fun ts hts => h.runs ts (List.mem_append_right _ hts)

/-- Clauses are written one a line, each with the tokens of its window. -/
theorem written_clauses {tokensOf : Window → List Token} {windows : List Window}
    {clauses : List String}
    (h : List.Forall₂ (fun window clause => Reads clause.toList (tokensOf window)) windows clauses) :
    Written (clauses.flatMap Mark.line) (windows.flatMap tokensOf) := by
  induction h with
  | nil => exact .nil
  | cons hclause _ ih => exact (Written.line hclause).append ih

/-! ### Dialects -/

/-- The tokens in front of the blocks of a window: the header of the planned window of that name. -/
def Plan.openingTokens (plan : Plan) (name : Term) : List Token :=
  ((plan.windows.find? (·.id = name)).map CqelsQl.headerTokens).getD []

/-- The tokens of a query in a dialect for which a plan was made, behind its registration. -/
def Query.tokensIn (query : Query) (plan : Plan) : Dialect → List Token
  | .rspQl => query.nativeTokens
  | .cqelsQl => query.prologue.tokens ++ query.body.headedTokens none [] plan.openingTokens
  | .cSparql => query.prologue.tokens ++
      query.body.headedTokens none (plan.windows.flatMap CSparql.clauseTokens) fun _ => []
  | .sparqlStream => query.prologue.tokens ++
      query.body.withoutWindowGraphs.headedTokens plan.operator.keyword?
        (plan.windows.flatMap SparqlStream.clauseTokens) fun _ => []

/-- A query whose parts can be written. -/
structure Query.Spoken (query : Query) : Prop where
  prologue : query.prologue.Declared
  body : query.body.Spoken
  windows : ∀ window ∈ query.windows, window.Utterable

variable {query : Query} {plan : Plan} {strict : Bool}

namespace CSparql

/-- The line that registers a query with an output stream, and the empty line behind it. -/
def registration (form : QueryForm) : Option Term → String
  | none => ""
  | some stream =>
    let keyword := if form = .select then "QUERY" else "STREAM"
    "REGISTER " ++ keyword ++ " " ++ queryName stream ++ " AS\n\n"

theorem render_registerMarks (form : QueryForm) (output : Option Term) (marks : List Mark) :
    Page.render (registerMarks form output ++ marks) =
      registration form output ++ Page.render marks := by
  cases output with
  | none =>
      rw [registration, String.empty_append]
      rfl
  | some stream =>
      unfold registerMarks registration
      dsimp only
      generalize hline : "REGISTER " ++ (if form = .select then "QUERY" else "STREAM") ++ " " ++
        queryName stream ++ " AS" = line
      have hne : line ≠ "" := by
        rw [← hline]
        simp
      have hpage : (Mark.line line ++ [Mark.blankLine]).foldl Page.write Page.empty =
          Page.empty.below ["", line] := by
        simp [Mark.line, Page.write, Page.endLine, Page.empty, Page.below, hne]
      rw [Page.render_append rfl hpage, ← hline]
      simp [String.join, String.append_assoc]

theorem written (h : query.Spoken) {clauses : List String}
    (hclauses : List.Forall₂ (fun window clause => Reads clause.toList (clauseTokens window))
      plan.windows clauses) :
    Written (query.prologue.marks ++ query.body.marks ⟨none, clauses, fun _ => none⟩)
      (query.tokensIn plan .cSparql) :=
  (Prologue.written h.prologue).append
    (QueryBody.written_headed h.body (fun _ _ _ _ => .nil) nofun (written_clauses hclauses))

end CSparql

namespace SparqlStream

theorem ensures_withoutGraphs (query : Query) :
    Ensures (withoutGraphs strict query) (· = query.body.withoutWindowGraphs) := by
  unfold withoutGraphs QueryBody.withoutWindowGraphs
  cases hpattern : query.body.pattern with
  | none =>
      refine .pure ?_
      rw [Option.map_none, ← hpattern]
  | some pattern => exact .bind_right fun _ => .pure rfl

theorem written (h : query.Spoken) {clauses : List String}
    (hclauses : List.Forall₂ (fun window clause => Reads clause.toList (clauseTokens window))
      plan.windows clauses) :
    Written (query.prologue.marks ++ query.body.withoutWindowGraphs.marks
      ⟨plan.operator.keyword?, clauses, fun _ => none⟩) (query.tokensIn plan .sparqlStream) := by
  have hkeywords : ∀ word ∈ ["ISTREAM", "DSTREAM", "RSTREAM"], word ∈ keywords := by decide
  exact (Prologue.written h.prologue).append (QueryBody.written_headed h.body.withoutWindowGraphs
    (fun _ _ _ _ => .nil) (fun word hword => hkeywords word (keyword?_mem hword))
    (written_clauses hclauses))

end SparqlStream

namespace CqelsQl

/-- A name and the header of a window. -/
def Heads (window : Window) (header : Term × String) : Prop :=
  header.1 = window.id ∧ Reads header.2.toList (headerTokens window)

theorem ensures_headers_reads {windows : List Window} (h : ∀ window ∈ windows, window.Utterable) :
    Ensures (windows.mapM fun window => do return (window.id, ← streamHeader strict window))
      (List.Forall₂ Heads windows) :=
  .mapM_of_mem fun window hwindow =>
    (ensures_streamHeader (h window hwindow)).bind fun _ hheader => .pure ⟨rfl, hheader⟩

/-- The header of a name has the tokens of the window of that name. -/
theorem written_opening {headers : List (Term × String)} (h : List.Forall₂ Heads plan.windows headers)
    (name : Term) :
    Written (((headers.find? (·.1 = name)).map Prod.snd).toList.map Mark.word)
      (plan.openingTokens name) := by
  unfold Plan.openingTokens
  generalize plan.windows = windows at h ⊢
  induction h with
  | nil => exact .nil
  | @cons window header windows headers hhead _ ih =>
      rw [List.find?_cons, List.find?_cons, hhead.1]
      split
      · have hword := Written.word hhead.2 .nil
        rwa [List.append_nil] at hword
      · exact ih

theorem written (h : query.Spoken) {headers : List (Term × String)}
    (hheaders : List.Forall₂ Heads plan.windows headers) :
    Written (query.prologue.marks ++ query.body.marks
      ⟨none, [], fun name => (headers.find? (·.1 = name)).map Prod.snd⟩)
        (query.tokensIn plan .cqelsQl) :=
  (Prologue.written h.prologue).append
    (QueryBody.written_headed h.body (fun _ _ name _ => written_opening hheaders name) nofun .nil)

end CqelsQl

/-! ### Projections -/

/-- The line that registers a query, in the dialect that has one. -/
def Dialect.registration (dialect : Dialect) (form : QueryForm) (output : Option Term) : String :=
  if dialect = .cSparql then CSparql.registration form output else ""

/-- A text that registers a query with an output stream and goes on with given tokens. -/
def Plan.Spells (dialect : Dialect) (query : Query) (plan : Plan) (text : String) : Prop :=
  ∃ rest, text = dialect.registration query.form plan.output ++ rest ∧
    Token.read rest = .ok (query.tokensIn plan dialect)

/-- The block of a window has the header of the window that was declared under its name. -/
def Plan.Opens (query : Query) (plan : Plan) (name : Term) : Prop :=
  ∃ window planned, query.window? name = some window ∧
    window.adapted? Dialect.cqelsQl.capabilities = some planned ∧
    plan.openingTokens name = CqelsQl.headerTokens planned

theorem Plan.spells_of_written {dialect : Dialect} {marks : List Mark}
    (hdialect : dialect ≠ .cSparql) (h : Written marks (query.tokensIn plan dialect)) :
    plan.Spells dialect query (Page.render marks) := by
  refine ⟨Page.render marks, ?_, Token.read_eq_ok_iff.mpr (Page.tokens?_render h)⟩
  rw [Dialect.registration, if_neg hdialect, String.empty_append]

namespace CSparql

theorem spells_project (h : query.Spoken) {text : String} {warnings : List String}
    (hrun : (project query strict).run [] = .ok (text, warnings)) :
    ∃ plan between, (Plan.ofQuery .cSparql Dialect.cSparql.capabilities strict query).run [] =
      .ok (plan, between) ∧ plan.Spells .cSparql query text := by
  obtain ⟨plan, between, hplan, hrun⟩ := run_bind_eq_ok.mp hrun
  have hwindows := (Plan.ensures_ofQuery query _ _ _ hplan).utterable h.windows
  obtain ⟨clauses, last, hclauses, hrun⟩ := run_bind_eq_ok.mp hrun
  have hreads := Ensures.mapM_of_mem
    (fun window hwindow => ensures_streamClause (hwindows window hwindow)) _ _ _ hclauses
  cases hrun
  refine ⟨plan, between, hplan, _, ?_, Token.read_eq_ok_iff.mpr
    (Page.tokens?_render (written h hreads))⟩
  rw [List.append_assoc]
  exact render_registerMarks _ _ _

end CSparql

namespace SparqlStream

theorem spells_project (h : query.Spoken) {text : String} {warnings : List String}
    (hrun : (project query strict).run [] = .ok (text, warnings)) :
    ∃ plan between, (Plan.ofQuery .sparqlStream Dialect.sparqlStream.capabilities strict query).run
      [] = .ok (plan, between) ∧ plan.Spells .sparqlStream query text := by
  obtain ⟨plan, between, hplan, hrun⟩ := run_bind_eq_ok.mp hrun
  have hwindows := (Plan.ensures_ofQuery query _ _ _ hplan).utterable h.windows
  obtain ⟨clauses, afterClauses, hclauses, hrun⟩ := run_bind_eq_ok.mp hrun
  obtain ⟨body, afterBody, hbody, hrun⟩ := run_bind_eq_ok.mp hrun
  obtain rfl := ensures_withoutGraphs query _ _ _ hbody
  have hreads : List.Forall₂ (fun window clause => Reads clause.toList (clauseTokens window))
      plan.windows clauses := by
    have htexts := mapM_eq_ok_iff.mp (Ensures.liftM _ _ _ _ hclauses)
    exact ((List.forall₂_and_left _ _).mpr ⟨hwindows, htexts⟩).imp fun _ _ h =>
      reads_streamClause h.1 h.2
  cases hrun
  exact ⟨plan, between, hplan, Plan.spells_of_written nofun (written h hreads)⟩

end SparqlStream

namespace CqelsQl

/-- Every block of a name for which there is a planned window has the header of the window of that name. -/
theorem opens_of_mem (hids : (query.windows.map Window.id).Nodup)
    (hplan : plan.Follows Dialect.cqelsQl.capabilities query) {name : Term}
    (hname : name ∈ plan.windows.map Window.id) : plan.Opens query name := by
  obtain ⟨adapted, hadapted, hmerged⟩ := hplan.windows
  rw [Plan.Merged, if_neg (by decide)] at hmerged
  obtain ⟨planned, hplanned⟩ : ∃ planned, plan.windows.find? (·.id = name) = some planned := by
    obtain ⟨other, hother, hid⟩ := List.mem_map.mp hname
    exact Option.isSome_iff_exists.mp (List.find?_isSome.mpr ⟨other, hother, by simpa using hid⟩)
  have hmem := List.mem_of_find?_eq_some hplanned
  rw [hmerged, (Window.sorted_perm adapted).mem_iff] at hmem
  obtain ⟨window, hwindow, hspec, -⟩ := exists_of_mem_right hadapted hmem
  have hid : window.id = name := by
    rw [← (Window.adapted?_names hspec).1]
    simpa using List.find?_some hplanned
  refine ⟨window, planned, ?_, hspec, ?_⟩
  · rw [← hid]
    exact Query.window?_of_mem hids hwindow
  · rw [Plan.openingTokens, hplanned]
    rfl

theorem spells_project (h : query.Spoken) (hids : (query.windows.map Window.id).Nodup)
    {text : String} {warnings : List String}
    (hrun : (project query strict).run [] = .ok (text, warnings)) :
    ∃ plan between, (Plan.ofQuery .cqelsQl Dialect.cqelsQl.capabilities strict query).run [] =
      .ok (plan, between) ∧ plan.Spells .cqelsQl query text ∧
        ∀ name ∈ query.windowBlocks.map Prod.fst, plan.Opens query name := by
  obtain ⟨plan, between, hplan, hrun⟩ := run_bind_eq_ok.mp hrun
  have hfollows := Plan.ensures_ofQuery query _ _ _ hplan
  obtain ⟨headers, afterHeaders, hheaders, hrun⟩ := run_bind_eq_ok.mp hrun
  have hreads := ensures_headers_reads (hfollows.utterable h.windows) _ _ _ hheaders
  dsimp only at hrun
  split at hrun
  · cases hrun
  · next hknown =>
    obtain ⟨_, afterUses, -, hrun⟩ := run_bind_eq_ok.mp hrun
    obtain ⟨_, afterBlocks, -, hrun⟩ := run_bind_eq_ok.mp hrun
    cases hrun
    refine ⟨plan, between, hplan, Plan.spells_of_written nofun (written h hreads), ?_⟩
    intro name hname
    refine opens_of_mem hids hfollows ?_
    rw [List.find?_eq_none] at hknown
    rw [map_eq_map_of_forall₂ hreads fun _ _ _ hhead => hhead.1.symm]
    simpa using hknown name hname

end CqelsQl

/-- A query that was read can be written, whatever the dialect. -/
theorem Query.Reading.spoken (h : query.Reading) (hruns : ∀ ts ∈ query.body.runs, Separable ts) :
    query.Spoken where
  prologue := h.prologue
  body := h.lexical.spoken hruns
  windows window hwindow := (h.declared window hwindow).utterable h.prologue.prefixes

/-- Projections print the body of a query as it stands. Behind the registration, the text has the tokens
of the declarations, of the body and of the clauses of the planned windows, and in CQELS-QL every
window block has the header of its own window. -/
theorem Query.read_project {text : String} {dialect : Dialect} {projection : Projection}
    (h : read text = .ok query)
    (hlabels : ∀ entry ∈ query.prologue.prefixes.entries, PrefixMapping.IsPlainLabel entry.1)
    (hruns : ∀ ts ∈ query.body.runs, Separable ts) (hdialect : dialect ≠ .rspQl)
    (hproject : query.project dialect strict = .ok projection) :
    ∃ plan warnings, (Plan.ofQuery dialect dialect.capabilities strict query).run [] =
        .ok (plan, warnings) ∧
      plan.Spells dialect query projection.text ∧
      (dialect = .cqelsQl → ∀ name ∈ query.windowBlocks.map Prod.fst, plan.Opens query name) := by
  have hreading := reading_of_read h hlabels
  have hspoken := hreading.spoken hruns
  cases dialect with
  | rspQl => exact absurd rfl hdialect
  | cqelsQl =>
      obtain ⟨result, hrun, rfl⟩ := outcome_eq_ok.mp hproject
      obtain ⟨plan, between, hplan, hspells, hopens⟩ :=
        CqelsQl.spells_project hspoken hreading.nodup hrun
      exact ⟨plan, between, hplan, hspells, fun _ => hopens⟩
  | cSparql =>
      obtain ⟨result, hrun, rfl⟩ := outcome_eq_ok.mp hproject
      obtain ⟨plan, between, hplan, hspells⟩ := CSparql.spells_project hspoken hrun
      exact ⟨plan, between, hplan, hspells, fun hother => absurd hother (by decide)⟩
  | sparqlStream =>
      obtain ⟨result, hrun, rfl⟩ := outcome_eq_ok.mp hproject
      obtain ⟨plan, between, hplan, hspells⟩ := SparqlStream.spells_project hspoken hrun
      exact ⟨plan, between, hplan, hspells, fun hother => absurd hother (by decide)⟩

/-- The query over the last hour of a stream in CQELS-QL. -/
def Query.hourlyStream : Projection where
  text := "PREFIX : <http://a/>\n\nSELECT ?x\nWHERE \x7b\n  STREAM <http://a/s> [RANGE 1h] \x7b\n" ++
    "    ?x ?p ?o\n  \x7d\n\x7d\n"
  warnings := ["REGISTER of <http://a/out> is not supported in CQELS-QL and is omitted"]

theorem Query.read_project_hourly : hourly.project .cqelsQl false = .ok hourlyStream ∧
    ∃ plan warnings, (Plan.ofQuery .cqelsQl Dialect.cqelsQl.capabilities false hourly).run [] =
        .ok (plan, warnings) ∧
      plan.Spells .cqelsQl hourly hourlyStream.text ∧
      ∀ name ∈ hourly.windowBlocks.map Prod.fst, plan.Opens hourly name := by
  have hproject : hourly.project .cqelsQl false = .ok hourlyStream := by decide +kernel
  obtain ⟨plan, warnings, hplan, hspells, hopens⟩ :=
    read_project read_hourlyText (by decide +kernel) hourly_runs (by decide) hproject
  exact ⟨hproject, plan, warnings, hplan, hspells, hopens rfl⟩

end StreamQuery
