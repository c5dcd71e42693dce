import StreamQuery.Proofs.Dialect.Plan

/-! # Profiles of the dialects

Strict projection succeeds exactly on the queries that a dialect can express. What it can express is
said here of the query alone, without the steps in which a projection finds it out.
-/

namespace StreamQuery

open Projecting

/-! ### Strict plans -/

namespace Window

variable {windows : List Window} {groups : List (Term × List Window)}

/-- Groups of one window each are those of windows over different streams. -/
theorem Grouped.forall_length_eq_one_iff (h : Grouped windows groups) :
    (∀ group ∈ groups, group.2.length = 1) ↔ (windows.map Window.stream).Nodup := by
  rw [← (h.perm.map Window.stream).nodup_iff]
  constructor
  · intro hsingle
    have hstreams : (groups.flatMap Prod.snd).map Window.stream = groups.map Prod.fst := by
      rw [List.map_flatMap, List.map_eq_flatMap]
      refine List.flatMap_congr fun group hgroup => ?_
      obtain ⟨window, hwindow⟩ := List.length_eq_one_iff.mp (hsingle group hgroup)
      have hstream := h.members group hgroup window (by rw [hwindow]; exact List.mem_singleton_self _)
      rw [hwindow, List.map_singleton, hstream]
    rw [hstreams]
    exact h.streams
  · intro hnodup group hgroup
    -- a group of several windows repeats its stream among those of all windows
    have hmem : group.2 ∈ groups.map Prod.snd := List.mem_map_of_mem hgroup
    have hsublist := (List.sublist_flatten_of_mem hmem).map Window.stream
    rw [← List.flatMap_def] at hsublist
    have hreplicate : group.2.map Window.stream = List.replicate group.2.length group.1 := by
      rw [List.map_congr_left (h.members group hgroup), List.map_const']
    rw [hreplicate] at hsublist
    have hle := List.nodup_replicate.mp (hnodup.sublist hsublist)
    have hpos := List.length_pos_iff.mpr (h.nonempty group hgroup)
    omega

end Window

namespace Plan

variable {dialect : Dialect} {caps : Capabilities}

theorem succeeds_adaptWindow (window : Window) :
    SucceedsIff (adaptWindow dialect caps true window) (caps.supportsKind window.kind) := by
  unfold adaptWindow
  split
  · next hkind => exact (SucceedsIff.pure window).congr (iff_of_true trivial hkind)
  · next hkind =>
    split
    · rw [Bool.not_true, Bool.and_false]
      exact (SucceedsIff.throw _).congr (iff_of_false not_false hkind)
    · exact (SucceedsIff.throw _).congr (iff_of_false not_false hkind)

theorem ensures_adaptWindow_strict (window : Window) :
    Ensures (adaptWindow dialect caps true window) (window = ·) := by
  unfold adaptWindow
  split
  · exact .pure rfl
  · split
    · rw [Bool.not_true, Bool.and_false]
      exact .throw _
    · exact .throw _

theorem succeeds_mergeGroup (stream : Term) {group : List Window} (h : group ≠ []) :
    SucceedsIff (mergeGroup dialect caps true stream group) (group.length = 1) := by
  unfold mergeGroup
  have hpos := List.length_pos_iff.mpr h
  split
  · next hlength => exact (SucceedsIff.lose_bind _ _ _).congr (iff_of_false not_false (by omega))
  · next hlength =>
    obtain ⟨window, rfl⟩ := List.length_eq_one_iff.mp (show group.length = 1 by omega)
    exact (SucceedsIff.liftM _).congr (iff_of_true ⟨window, rfl⟩ rfl)

theorem ensures_mergeGroup_strict (group : Term × List Window) :
    Ensures (mergeGroup dialect caps true group.1 group.2) (group.2 = [·]) := by
  unfold mergeGroup
  split
  · exact .lose_bind _ _ _
  · next hlength =>
    refine (Ensures.liftM _).mono fun merged hmerged => ?_
    cases hgroup : group.2 with
    | nil =>
        rw [hgroup] at hmerged
        cases hmerged
    | cons first rest =>
        rw [hgroup, List.length_cons, Nat.lt_add_left_iff_pos, List.length_pos_iff, not_not] at hlength
        rw [hgroup, hlength] at hmerged
        cases hmerged
        rw [hlength]

theorem succeeds_mergeWindows (windows : List Window) :
    SucceedsIff (mergeWindows dialect caps true windows)
      (caps.windowsPerStream = some 1 → (windows.map Window.stream).Nodup) := by
  have hgrouped := Window.grouped_groupByStream windows
  unfold mergeWindows
  split
  · next hone =>
    refine (SucceedsIff.mapM fun group hgroup =>
      succeeds_mergeGroup group.1 (hgrouped.nonempty group hgroup)).congr ?_
    rw [hgrouped.forall_length_eq_one_iff]
    exact ⟨fun h _ => h, fun h => h hone⟩
  · next hmany => exact (SucceedsIff.pure _).congr (iff_of_true trivial fun h => absurd h hmany)

theorem flatMap_of_forall₂ {groups : List (Term × List Window)} {planned : List Window}
    (h : List.Forall₂ (fun group merged => group.2 = [merged]) groups planned) :
    groups.flatMap Prod.snd = planned := by
  induction h with
  | nil => rfl
  | cons hhead _ ih => rw [List.flatMap_cons, hhead, ih, List.singleton_append]

theorem ensures_mergeWindows_strict (windows : List Window) :
    Ensures (mergeWindows dialect caps true windows) (·.Perm windows) := by
  unfold mergeWindows
  split
  · refine (Ensures.mapM ensures_mergeGroup_strict _).mono fun merged hmerged => ?_
    rw [← flatMap_of_forall₂ hmerged]
    exact (Window.grouped_groupByStream windows).perm
  · exact .pure (Window.sorted_perm windows)

theorem succeeds_chooseOperator (operator : OutputOperator) :
    SucceedsIff (chooseOperator dialect caps true operator) (caps.supportsOperator operator) := by
  unfold chooseOperator
  split
  · next h => exact (SucceedsIff.pure _).congr (iff_of_true trivial h)
  · next h => exact (SucceedsIff.lose_bind _ _ _).congr (iff_of_false not_false h)

theorem succeeds_chooseOutput (output : Option Term) :
    SucceedsIff (chooseOutput dialect caps true output) (caps.namedOutput ∨ output = none) := by
  unfold chooseOutput
  split
  · exact (SucceedsIff.pure _).congr (iff_of_true trivial (.inr rfl))
  · split
    · next h => exact (SucceedsIff.pure _).congr (iff_of_true trivial (.inl h))
    · next h => exact (SucceedsIff.lose_bind _ _ _).congr (iff_of_false not_false (by simpa using h))

/-- What a dialect needs of a query apart from its frames and its body. -/
structure Admits (caps : Capabilities) (query : Query) : Prop where
  form : caps.supportsForm query.form
  kinds : ∀ window ∈ query.windows, caps.supportsKind window.kind
  streams : caps.windowsPerStream = some 1 → (query.windows.map Window.stream).Nodup
  operator : caps.supportsOperator query.operator
  output : caps.namedOutput ∨ query.output = none

theorem ensures_adaptWindows_strict (windows : List Window) :
    Ensures (windows.mapM (adaptWindow dialect caps true)) (windows = ·) :=
  (Ensures.mapM ensures_adaptWindow_strict windows).mono fun _ h => List.forall₂_eq_eq_eq ▸ h

theorem succeeds_ofQuery (query : Query) :
    SucceedsIff (ofQuery dialect caps true query) (Admits caps query) := by
  unfold ofQuery
  dsimp only
  split
  · next hform =>
    exact (SucceedsIff.throw _).congr (iff_of_false not_false fun h => by simp [h.form] at hform)
  · next hform =>
    refine ((SucceedsIff.mapM fun window _ => succeeds_adaptWindow window).bind_known
      (ensures_adaptWindows_strict query.windows)
      ((succeeds_mergeWindows query.windows).bind_of_all fun _ =>
        (succeeds_chooseOperator query.operator).bind_of_all fun _ =>
          (succeeds_chooseOutput query.output).bind_true fun _ => .pure _)).congr ?_
    refine ⟨?_, fun h => ⟨h.kinds, h.streams, h.operator, h.output⟩⟩
    rintro ⟨hkinds, hstreams, hoperator, houtput⟩
    exact ⟨by simpa using hform, hkinds, hstreams, hoperator, houtput⟩

theorem ensures_ofQuery_strict (query : Query) :
    Ensures (ofQuery dialect caps true query) (·.windows.Perm query.windows) := by
  unfold ofQuery
  dsimp only
  split
  · exact .throw _
  · refine (ensures_adaptWindows_strict _).bind fun windows hwindows => ?_
    subst hwindows
    refine (ensures_mergeWindows_strict _).bind fun planned hplanned => ?_
    exact .bind_right fun _ => .bind_right fun _ => .pure hplanned

end Plan

/-! ### Slots and frames -/

/-- A slot that holds a variable, or a readable duration that is a multiple of a grain. -/
def Term.IsDuration (grain : Nat) (term : Term) : Prop :=
  term.isVariable ∨ ∃ d, term.duration? = some (.ok d) ∧ grain ∣ d.totalNanos

/-- A slot that holds a variable or a count. -/
def Term.IsCount (term : Term) : Prop := term.isVariable ∨ ∃ n, term.count? = some n

/-- In units that are multiples of the first one, a duration has a text if the first one divides it. -/
theorem Duration.inUnits?_isSome_iff {unit : TimeUnit} {units : List TimeUnit} {separator : String}
    (h : ∀ other ∈ units, unit.nanos ∣ other.nanos) (d : Duration) :
    (d.inUnits? (unit :: units) separator).isSome ↔ unit.nanos ∣ d.totalNanos := by
  unfold inUnits?
  dsimp only
  split
  · next hzero =>
    rw [totalNanos, hzero.1, hzero.2]
    simp
  · simp only [Option.isSome_map, List.find?_isSome, List.mem_reverse, List.mem_cons,
      decide_eq_true_eq]
    constructor
    · rintro ⟨other, rfl | hother, hdvd⟩
      · exact Nat.dvd_of_mod_eq_zero hdvd
      · exact Nat.dvd_trans (h other hother) (Nat.dvd_of_mod_eq_zero hdvd)
    · exact fun hdvd => ⟨unit, .inl rfl, Nat.mod_eq_zero_of_dvd hdvd⟩

/-- A grain of a dialect: what divides a duration if the dialect has a text for it. -/
def Dialect.HasGrain (dialect : Dialect) (grain : Nat) : Prop := ∀ d : Duration,
  (d.inUnits? dialect.capabilities.units dialect.capabilities.separator).isSome ↔ grain ∣ d.totalNanos

theorem CqelsQl.hasGrain : Dialect.cqelsQl.HasGrain 1 :=
  Duration.inUnits?_isSome_iff (by decide)

theorem CSparql.hasGrain : Dialect.cSparql.HasGrain 1000000 :=
  Duration.inUnits?_isSome_iff (by decide)

theorem SparqlStream.hasGrain : Dialect.sparqlStream.HasGrain 1000000 :=
  Duration.inUnits?_isSome_iff (by decide)

namespace Window

variable {dialect : Dialect} {grain : Nat}

theorem durationText_ok_iff (h : dialect.HasGrain grain) (window : Window) (field : String)
    (term : Term) :
    (∃ text, window.durationText dialect field term = .ok text) ↔ term.IsDuration grain := by
  unfold durationText Term.IsDuration
  by_cases hvariable : term.isVariable
  · simp [hvariable]
  · rw [if_neg hvariable]
    cases hduration : term.duration? with
    | none => simp [hvariable]
    | some read =>
        cases read with
        | error e => simp [hvariable]
        | ok d =>
            have hgrain := h d
            cases htext : d.inUnits? dialect.capabilities.units dialect.capabilities.separator with
            | none => simpa [hvariable, htext] using hgrain
            | some text => simpa [hvariable, htext] using hgrain

theorem countText_ok_iff (window : Window) (field : String) (term : Term) :
    (∃ text, window.countText field term = .ok text) ↔ term.IsCount := by
  unfold countText Term.IsCount
  by_cases hvariable : term.isVariable
  · simp [hvariable]
  · rw [if_neg hvariable]
    cases hcount : term.count? with
    | none => simp [hvariable]
    | some n => simp

/-- A window over the latest stretch of time, in multiples of a grain, or over so many items without
a step. -/
def IsLatest (grain : Nat) (window : Window) : Prop :=
  match window.frame with
  | .logical range => range.IsDuration grain ∧ ∀ step ∈ window.step, step.IsDuration grain
  | .past _ _ => False
  | .physical items => window.step = none ∧ items.IsCount

/-- A window over a stretch of time, now or in the past, in multiples of a grain. -/
def IsTimed (grain : Nat) (window : Window) : Prop :=
  window.kind ≠ .physical ∧ ∀ term ∈ window.frame.terms ++ window.step.toList, term.IsDuration grain

theorem succeeds_itemsFrame (window : Window) (items : Term) :
    SucceedsIff (window.itemsFrame dialect true items) (window.step = none ∧ items.IsCount) := by
  unfold itemsFrame
  dsimp only
  cases hstep : window.step with
  | none =>
      rw [Option.isSome_none, if_neg (by simp)]
      refine (((SucceedsIff.liftM _).bind_true fun _ => .pure _)).congr ?_
      rw [countText_ok_iff]
      exact (and_iff_right rfl).symm
  | some step =>
      rw [Option.isSome_some, if_pos rfl]
      exact (SucceedsIff.lose_bind _ _ _).congr (iff_of_false not_false nofun)

end Window

/-! ### Blocks -/

namespace Pattern

/-- A block of triples and of groups of them: no window, and no words but those that stand in triples. -/
def IsTriples : Pattern → Prop
  | nil => True
  | run tokens rest =>
    (∀ word, .word word ∈ tokens → ∃ plain ∈ tripleWords, Text.sameLetters word plain) ∧ rest.IsTriples
  | group inner rest => inner.IsTriples ∧ rest.IsTriples
  | window _ _ _ => False

theorem keywordOccurrences_eq_nil_iff (pattern : Pattern) :
    pattern.keywordOccurrences = [] ↔ pattern.IsTriples := by
  induction pattern with
  | nil => simp [keywordOccurrences, IsTriples]
  | run tokens rest ih =>
      rw [keywordOccurrences, IsTriples, List.append_eq_nil_iff, ih, List.filterMap_eq_nil_iff]
      refine and_congr_left fun _ => ?_
      constructor
      · intro h word hword
        simpa using h _ hword
      · intro h token htoken
        cases token with
        | word word => simpa using h word htoken
        | _ => rfl
  | group inner rest ih ih' =>
      rw [keywordOccurrences, IsTriples, List.append_eq_nil_iff, ih, ih']
  | window name inner rest => simp [keywordOccurrences, IsTriples]

/-- Collecting words that are new keeps the words that are there. -/
theorem prefix_foldl_addNew (words kept : List String) : kept <+: words.foldl (fun kept word =>
    if kept.contains word then kept else kept ++ [word]) kept := by
  induction words generalizing kept with
  | nil => exact List.prefix_rfl
  | cons word words ih =>
      rw [List.foldl_cons]
      split
      · exact ih kept
      · exact (List.prefix_append kept [word]).trans (ih _)

theorem keywords_eq_nil_iff (pattern : Pattern) : pattern.keywords = [] ↔ pattern.IsTriples := by
  rw [← keywordOccurrences_eq_nil_iff]
  unfold keywords
  cases pattern.keywordOccurrences with
  | nil => simp
  | cons word words =>
      -- the first word is always new, and it is never taken out again
      refine iff_of_false (fun hnil => ?_) (List.cons_ne_nil word words)
      have hfirst := prefix_foldl_addNew words [word]
      rw [show List.foldl _ [word] words = [] from hnil, List.prefix_nil] at hfirst
      exact List.cons_ne_nil word [] hfirst

end Pattern

/-! ### The dialects -/

/-- The blocks of a query that range over windows. -/
def Query.windowBlocks (query : Query) : List (Term × Pattern) :=
  (query.body.pattern.map Pattern.windowBlocks).getD []

theorem supportsForm_iff {caps : Capabilities} {form : QueryForm} (hasks : caps.asks = false)
    (hdescribes : caps.describes = false) :
    caps.supportsForm form ↔ form = .select ∨ form = .construct := by
  cases form <;> simp [Capabilities.supportsForm, hasks, hdescribes]

namespace Window

theorem succeeds_durationText {dialect : Dialect} {grain : Nat} (h : dialect.HasGrain grain)
    (window : Window) (field : String) (term : Term) :
    SucceedsIff (liftM (window.durationText dialect field term)) (term.IsDuration grain) :=
  (SucceedsIff.liftM _).congr (durationText_ok_iff h window field term)

end Window

theorem supportsOperator_iff {caps : Capabilities} {operator only : OutputOperator}
    (h : caps.operators = [only]) :
    caps.supportsOperator operator ↔ operator = .unspecified ∨ operator = only := by
  simp [Capabilities.supportsOperator, h]

theorem supportsKind_of_isLatest {caps : Capabilities} {grain : Nat} {window : Window}
    (hkinds : caps.kinds = [.logical, .physical]) (h : window.IsLatest grain) :
    caps.supportsKind window.kind := by
  unfold Window.IsLatest at h
  unfold Capabilities.supportsKind Window.kind
  rw [hkinds]
  cases hframe : window.frame with
  | logical range => rfl
  | past start stop =>
      rw [hframe] at h
      exact h.elim
  | physical items => rfl

namespace CSparql

theorem isDuration_smallestStep : (Term.ofDuration .millisecond).IsDuration 1000000 :=
  .inr ⟨.millisecond, by decide +kernel, by decide⟩

theorem succeeds_streamClause (window : Window) :
    SucceedsIff (streamClause true window) (window.IsLatest 1000000) := by
  unfold streamClause Window.IsLatest
  cases window.frame with
  | logical range =>
      have hrange := Window.succeeds_durationText hasGrain window "range" range
      cases hstep : window.step with
      | none =>
          have hdefault := Window.succeeds_durationText hasGrain window "step"
            (Term.ofDuration .millisecond)
          -- the step that is filled in can always be written, so only the range counts
          refine (hrange.bind_of_all fun _ => (SucceedsIff.warn _).bind_of_all fun _ =>
            (SucceedsIff.pure _).bind_known (.pure rfl)
              (hdefault.bind_true fun _ => .pure _)).congr ?_
          simp [isDuration_smallestStep]
      | some step =>
          have hstep := Window.succeeds_durationText hasGrain window "step" step
          refine (hrange.bind_of_all fun _ => (SucceedsIff.pure step).bind_known (.pure rfl)
            (hstep.bind_true fun _ => .pure _)).congr ?_
          simp
  | past start stop => exact SucceedsIff.throw _
  | physical items => exact (Window.succeeds_itemsFrame window items).bind_true fun _ => .pure _

/-- The queries that can be written in C-SPARQL. -/
structure Expressible (query : Query) : Prop where
  form : query.form = .select ∨ query.form = .construct
  streams : (query.windows.map Window.stream).Nodup
  operator : query.operator = .unspecified ∨ query.operator = .rstream
  windows : ∀ window ∈ query.windows, window.IsLatest 1000000

theorem succeeds_project (query : Query) :
    SucceedsIff (project query true) (Expressible query) := by
  unfold project
  refine ((Plan.succeeds_ofQuery query).bind (Plan.ensures_ofQuery_strict query) fun plan hplan =>
    (SucceedsIff.mapM_of_perm hplan succeeds_streamClause).bind_true fun _ => .pure _).congr ?_
  constructor
  · rintro ⟨hadmits, hwindows⟩
    exact ⟨(supportsForm_iff rfl rfl).mp hadmits.form, hadmits.streams rfl,
      (supportsOperator_iff rfl).mp hadmits.operator, hwindows⟩
  · intro h
    refine ⟨⟨(supportsForm_iff rfl rfl).mpr h.form, fun window hwindow => ?_, fun _ => h.streams,
      (supportsOperator_iff rfl).mpr h.operator, .inl rfl⟩, h.windows⟩
    exact supportsKind_of_isLatest rfl (h.windows window hwindow)

end CSparql

namespace CqelsQl

theorem succeeds_streamHeader (window : Window) :
    SucceedsIff (streamHeader true window) (window.IsLatest 1) := by
  unfold streamHeader Window.IsLatest
  cases window.frame with
  | logical range =>
      have hrange := Window.succeeds_durationText hasGrain window "range" range
      cases hstep : window.step with
      | none =>
          refine (hrange.bind_of_all fun _ => .pure _).congr ?_
          simp
      | some step =>
          have hstep := Window.succeeds_durationText hasGrain window "step" step
          refine (hrange.bind_of_all fun _ => hstep.bind_true fun _ => .pure _).congr ?_
          simp
  | past start stop => exact SucceedsIff.throw _
  | physical items => exact (Window.succeeds_itemsFrame window items).bind_true fun _ => .pure _

theorem ensures_headers (windows : List Window) :
    Ensures (windows.mapM fun window => do return (window.id, ← streamHeader true window))
      fun headers => headers.map Prod.fst = windows.map Window.id := by
  refine (Ensures.mapM (r := fun window header => window.id = header.1) (fun window => ?_) _).mono ?_
  · exact .bind_right fun _ => .pure rfl
  · intro headers hheaders
    have hids := List.forall₂_map_right_iff.mpr (List.forall₂_map_left_iff.mpr hheaders)
    rw [List.forall₂_eq_eq_eq] at hids
    exact hids.symm

theorem succeeds_checkBlock (name : Term) (block : Pattern) :
    SucceedsIff (checkBlock true name block) block.IsTriples := by
  unfold checkBlock
  refine (SucceedsIff.forM fun _ _ => .lose _ _).congr ?_
  rw [← Pattern.keywords_eq_nil_iff, List.eq_nil_iff_forall_not_mem]
  
theorem succeeds_checkUse (used : List Term) (id : Term) :
    SucceedsIff (checkUse true used id) (id ∈ used) := by
  unfold checkUse
  split
  · next h => exact (SucceedsIff.pure ()).congr (iff_of_true trivial (List.contains_iff_mem.mp h))
  · next h => exact (SucceedsIff.lose _ _).congr (iff_of_false not_false (mt List.contains_iff_mem.mpr h))

/-- The queries that can be written in CQELS-QL. -/
structure Expressible (query : Query) : Prop where
  form : query.form = .select ∨ query.form = .construct
  operator : query.operator = .unspecified ∨ query.operator = .istream
  output : query.output = none
  windows : ∀ window ∈ query.windows, window.IsLatest 1
  names : ∀ name, name ∈ query.windowBlocks.map Prod.fst ↔ name ∈ query.windows.map Window.id
  blocks : ∀ block ∈ query.windowBlocks, block.2.IsTriples

theorem succeeds_project (query : Query) :
    SucceedsIff (project query true) (Expressible query) := by
  -- names are checked in both directions, by different steps and with different errors
  have hsteps : SucceedsIff (project query true)
      (Plan.Admits Dialect.cqelsQl.capabilities query ∧
        (∀ window ∈ query.windows, window.IsLatest 1) ∧
        (∀ name ∈ query.windowBlocks.map Prod.fst, name ∈ query.windows.map Window.id) ∧
        (∀ id ∈ query.windows.map Window.id, id ∈ query.windowBlocks.map Prod.fst) ∧
        ∀ block ∈ query.windowBlocks, block.2.IsTriples) := by
    unfold project
    refine (Plan.succeeds_ofQuery query).bind (Plan.ensures_ofQuery_strict query) fun plan hplan => ?_
    refine (SucceedsIff.mapM_of_perm hplan fun window =>
      (succeeds_streamHeader window).bind_true fun _ => .pure _).bind (ensures_headers _)
        fun headers hheaders => ?_
    have hids : (headers.map Prod.fst).Perm (query.windows.map Window.id) := by
      rw [hheaders]
      exact hplan.map _
    dsimp only
    split
    · next name hunknown =>
      refine (SucceedsIff.throw _).congr (iff_of_false not_false fun h => ?_)
      have hname := h.1 name (List.mem_of_find?_eq_some hunknown)
      have hnew := List.find?_some hunknown
      simp [hids.mem_iff.mpr hname] at hnew
    · next hknown =>
      refine ((SucceedsIff.forM fun id _ => succeeds_checkUse _ id).bind_of_all fun _ =>
        (SucceedsIff.forM fun block _ => succeeds_checkBlock block.1 block.2).bind_true fun _ =>
          .pure _).congr ?_
      rw [List.find?_eq_none] at hknown
      have hused : ∀ name ∈ query.windowBlocks.map Prod.fst, name ∈ query.windows.map Window.id :=
        fun name hname => hids.mem_iff.mp (by simpa using hknown name hname)
      simp only [hids.mem_iff]
      exact (and_iff_right hused).symm
  refine hsteps.congr ⟨?_, ?_⟩
  · rintro ⟨hadmits, hwindows, hnames, hids, hblocks⟩
    exact ⟨(supportsForm_iff rfl rfl).mp hadmits.form, (supportsOperator_iff rfl).mp hadmits.operator,
      hadmits.output.resolve_left nofun, hwindows, fun name => ⟨hnames name, hids name⟩, hblocks⟩
  · intro h
    refine ⟨⟨(supportsForm_iff rfl rfl).mpr h.form, fun window hwindow => ?_, nofun,
      (supportsOperator_iff rfl).mpr h.operator, .inr h.output⟩, h.windows, fun name => (h.names name).mp,
      fun name => (h.names name).mpr, h.blocks⟩
    exact supportsKind_of_isLatest rfl (h.windows window hwindow)

end CqelsQl

namespace SparqlStream

/-- The text of the step of a window, with a space in front. -/
def slideText (window : Window) : Except SerializationError String :=
  match window.step with
  | some step => do pure (" SLIDE " ++ (← window.durationText .sparqlStream "step" step))
  | none => pure ""

/-- The text of the frame of a window, relative to now. -/
def frameText (window : Window) : Except SerializationError String :=
  match window.frame with
  | .logical range => do pure ("NOW-" ++ (← window.durationText .sparqlStream "range" range))
  | .past start stop => do
    let start ← window.durationText .sparqlStream "from" start
    let stop ← window.durationText .sparqlStream "to" stop
    pure ("NOW-" ++ start ++ " TO NOW-" ++ stop)
  | .physical _ => throw (.windowKind .sparqlStream window.kind)

/-- The step is read first, whatever the frame is. -/
theorem streamClause_eq (window : Window) : streamClause window = (do
    let slide ← slideText window
    let frame ← frameText window
    return "FROM STREAM " ++ window.stream.text ++ " [" ++ frame ++ slide ++ "]") := by
  unfold streamClause slideText frameText
  cases window.step <;> cases window.frame <;> simp

theorem slideText_ok_iff (window : Window) :
    (∃ text, slideText window = .ok text) ↔ ∀ step ∈ window.step, step.IsDuration 1000000 := by
  unfold slideText
  cases window.step with
  | none => exact iff_of_true ⟨"", rfl⟩ nofun
  | some step =>
      have hstep := Window.durationText_ok_iff hasGrain window "step" step
      refine (exists_bind_eq_ok_iff hstep fun _ => iff_of_true ⟨_, rfl⟩ trivial).trans ?_
      simp

theorem frameText_ok_iff (window : Window) : (∃ text, frameText window = .ok text) ↔
    window.kind ≠ .physical ∧ ∀ term ∈ window.frame.terms, term.IsDuration 1000000 := by
  have hslot := Window.durationText_ok_iff hasGrain window
  unfold frameText Window.kind
  cases window.frame with
  | logical range =>
      refine (exists_bind_eq_ok_iff (hslot "range" range) fun _ => iff_of_true ⟨_, rfl⟩ trivial).trans ?_
      simp [Frame.kind, Frame.terms]
  | past start stop =>
      refine (exists_bind_eq_ok_iff (hslot "from" start) fun _ =>
        exists_bind_eq_ok_iff (hslot "to" stop) fun _ => iff_of_true ⟨_, rfl⟩ trivial).trans ?_
      simp [Frame.kind, Frame.terms]
  | physical items =>
      refine iff_of_false ?_ fun h => h.1 rfl
      rintro ⟨text, htext⟩
      cases htext

theorem streamClause_ok_iff (window : Window) :
    (∃ text, streamClause window = .ok text) ↔ window.IsTimed 1000000 := by
  rw [streamClause_eq]
  refine (exists_bind_eq_ok_iff (slideText_ok_iff window) fun _ =>
    exists_bind_eq_ok_iff (frameText_ok_iff window) fun _ => iff_of_true ⟨_, rfl⟩ trivial).trans ?_
  rw [and_true, and_comm, and_assoc, Window.IsTimed, List.forall_mem_append]
  simp

/-- The queries that can be written in SPARQLStream. -/
structure Expressible (query : Query) : Prop where
  form : query.form = .select ∨ query.form = .construct
  streams : (query.windows.map Window.stream).Nodup
  output : query.output = none
  windows : ∀ window ∈ query.windows, window.IsTimed 1000000
  graphs : ∀ pattern ∈ query.body.pattern, pattern.withoutWindowGraphs.2 = []

theorem succeeds_withoutGraphs (query : Query) :
    SucceedsIff (withoutGraphs true query)
      (∀ pattern ∈ query.body.pattern, pattern.withoutWindowGraphs.2 = []) := by
  unfold withoutGraphs
  split
  · next h => exact (SucceedsIff.pure _).congr (iff_of_true trivial (by simp [h]))
  · next pattern h =>
    refine ((SucceedsIff.forM fun _ _ => .lose _ _).bind_true fun _ => .pure _).congr ?_
    rw [h]
    simp [List.eq_nil_iff_forall_not_mem, Pattern.withoutWindowGraphs]

theorem succeeds_project (query : Query) :
    SucceedsIff (project query true) (Expressible query) := by
  have hclauses (windows : List Window) (h : windows.Perm query.windows) :
      SucceedsIff (liftM (windows.mapM streamClause) : Projecting (List String))
        (∀ window ∈ query.windows, window.IsTimed 1000000) := by
    refine (SucceedsIff.liftM _).congr ?_
    rw [exists_mapM_eq_ok_iff]
    exact forall_congr' fun window => imp_congr h.mem_iff (streamClause_ok_iff window)
  unfold project
  refine ((Plan.succeeds_ofQuery query).bind (Plan.ensures_ofQuery_strict query) fun plan hplan =>
    (hclauses plan.windows hplan).bind_of_all fun _ =>
      (succeeds_withoutGraphs query).bind_true fun _ => .pure _).congr ?_
  constructor
  · rintro ⟨hadmits, hwindows, hgraphs⟩
    exact ⟨(supportsForm_iff rfl rfl).mp hadmits.form, hadmits.streams rfl,
      hadmits.output.resolve_left nofun, hwindows, hgraphs⟩
  · intro h
    refine ⟨⟨(supportsForm_iff rfl rfl).mpr h.form, fun window hwindow => ?_, fun _ => h.streams,
      ?_, .inr h.output⟩, h.windows, h.graphs⟩
    · have hkind := (h.windows window hwindow).1
      cases hwindow : window.kind with
      | physical => exact absurd hwindow hkind
      | _ => rfl
    · cases query.operator <;> rfl

end SparqlStream

/-- Strict projection succeeds exactly on the queries that the dialect can express. -/
theorem Query.project_strict_iff (query : Query) :
    ((∃ projection, query.project .cSparql true = .ok projection) ↔ CSparql.Expressible query) ∧
      ((∃ projection, query.project .cqelsQl true = .ok projection) ↔ CqelsQl.Expressible query) ∧
      ((∃ projection, query.project .sparqlStream true = .ok projection) ↔
        SparqlStream.Expressible query) :=
  ⟨(CSparql.succeeds_project query).outcome, (CqelsQl.succeeds_project query).outcome,
    (SparqlStream.succeeds_project query).outcome⟩

end StreamQuery
