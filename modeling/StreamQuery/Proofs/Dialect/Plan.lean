import StreamQuery.Proofs.Dialect.Outcome
import StreamQuery.Proofs.Window.Combine

/-! # What plans hold

A plan has the windows of a query, as far as the dialect has their kinds, with one window for each
stream where the dialect has no more. No window is lost on the way: what stands in the plan covers it.
-/

namespace StreamQuery

open Projecting

namespace Window

/-- A window as far as it can be expressed: itself, or the logical window that it can stand for. -/
def adapted? (caps : Capabilities) (window : Window) : Option Window :=
  if caps.supportsKind window.kind then some window else window.asLogical?

variable {caps : Capabilities} {window adapted : Window}

theorem asLogical?_spec (h : window.asLogical? = some adapted) :
    adapted.kind = .logical ∧ adapted.id = window.id ∧ adapted.stream = window.stream := by
  unfold asLogical? at h
  split at h
  · split at h
    · split at h
      · cases h
        exact ⟨rfl, rfl, rfl⟩
      · cases h
    · cases h
  · cases h

theorem adapted?_names (h : window.adapted? caps = some adapted) :
    adapted.id = window.id ∧ adapted.stream = window.stream := by
  unfold adapted? at h
  split at h
  · cases h
    exact ⟨rfl, rfl⟩
  · exact (asLogical?_spec h).2

end Window

namespace Plan

variable {dialect : Dialect} {caps : Capabilities} {strict : Bool}

theorem ensures_adaptWindow (window : Window) :
    Ensures (adaptWindow dialect caps strict window) fun adapted =>
      window.adapted? caps = some adapted ∧ caps.supportsKind adapted.kind := by
  unfold adaptWindow Window.adapted?
  split
  · next hkind => exact .pure ⟨rfl, hkind⟩
  · split
    · next logical hlogical =>
      split
      · next hsupported =>
        refine .bind_right fun _ => .pure ⟨hlogical, ?_⟩
        rw [(Window.asLogical?_spec hlogical).1]
        exact (Bool.and_eq_true_iff.mp hsupported).1
      · exact .throw _
    · exact .throw _

theorem ensures_mergeGroup (stream : Term) (group : List Window) :
    Ensures (mergeGroup dialect caps strict stream group) fun merged =>
      Window.combineAll caps.minStep group = .ok merged := by
  unfold mergeGroup
  split
  · exact .bind_right fun _ => .liftM _
  · exact .liftM _

/-- What becomes of windows of supported kinds: one window for each group, or all of them in order. -/
def Merged (caps : Capabilities) (adapted planned : List Window) : Prop :=
  if caps.windowsPerStream = some 1 then
    List.Forall₂ (fun group merged => Window.combineAll caps.minStep group.2 = .ok merged)
      (Window.groupByStream adapted) planned
  else planned = Window.sorted adapted

theorem ensures_mergeWindows (adapted : List Window) :
    Ensures (mergeWindows dialect caps strict adapted) (Merged caps adapted) := by
  unfold mergeWindows Merged
  split
  · exact Ensures.mapM (fun group : Term × List Window => ensures_mergeGroup group.1 group.2) _
  · exact .pure rfl

theorem ensures_chooseOperator (operator : OutputOperator) :
    Ensures (chooseOperator dialect caps strict operator) fun chosen =>
      chosen = if caps.supportsOperator operator then operator else caps.defaultOperator := by
  unfold chooseOperator
  split
  · exact .pure rfl
  · exact .bind_right fun _ => .pure rfl

theorem ensures_chooseOutput (output : Option Term) :
    Ensures (chooseOutput dialect caps strict output) fun chosen =>
      chosen = if caps.namedOutput then output else none := by
  unfold chooseOutput
  split
  · exact .pure (by simp)
  · split
    · exact .pure rfl
    · exact .bind_right fun _ => .pure rfl

/-- What a plan for a query holds. -/
structure Follows (caps : Capabilities) (query : Query) (plan : Plan) : Prop where
  form : caps.supportsForm query.form
  windows : ∃ adapted, List.Forall₂ (fun window adapted =>
    window.adapted? caps = some adapted ∧ caps.supportsKind adapted.kind) query.windows adapted ∧
      Merged caps adapted plan.windows
  operator : plan.operator =
    if caps.supportsOperator query.operator then query.operator else caps.defaultOperator
  output : plan.output = if caps.namedOutput then query.output else none

theorem ensures_ofQuery (query : Query) :
    Ensures (ofQuery dialect caps strict query) (Follows caps query) := by
  unfold ofQuery
  dsimp only
  split
  · exact .throw _
  · next hform =>
    refine (Ensures.mapM ensures_adaptWindow _).bind fun adapted hadapted => ?_
    refine (ensures_mergeWindows adapted).bind fun planned hplanned => ?_
    refine (ensures_chooseOperator _).bind fun operator hoperator => ?_
    refine (ensures_chooseOutput _).bind fun output houtput => ?_
    exact .pure ⟨by simpa using hform, ⟨adapted, hadapted, hplanned⟩, hoperator, houtput⟩

/-! ### One window for each stream -/

variable {query : Query} {plan : Plan} {adapted planned : List Window} {groups : List (Term × List Window)}

/-- The window of a group stands over the stream of the group and covers its members. -/
theorem combineAll_group {minStep : Duration} {group : Term × List Window} {merged : Window}
    (h : Window.combineAll minStep group.2 = .ok merged) (hnonempty : group.2 ≠ [])
    (hmembers : ∀ window ∈ group.2, window.stream = group.1) :
    merged.stream = group.1 ∧ ∀ window ∈ group.2, Window.Covers minStep window merged := by
  have hcovers := Window.combineAll_covers h hmembers
  obtain ⟨first, hfirst⟩ := List.exists_mem_of_ne_nil _ hnonempty
  exact ⟨(hcovers first hfirst).stream.trans (hmembers first hfirst), hcovers⟩

/-- One window for each stream: the planned windows cover all windows, and nothing else. -/
theorem Merged.covers (hone : caps.windowsPerStream = some 1) (h : Merged caps adapted planned) :
    (planned.map Window.stream).Nodup ∧
      (∀ window ∈ adapted, ∃ merged ∈ planned, Window.Covers caps.minStep window merged) ∧
      ∀ merged ∈ planned, ∃ window ∈ adapted, Window.Covers caps.minStep window merged := by
  rw [Merged, if_pos hone] at h
  have hgrouped := Window.grouped_groupByStream adapted
  have hgroup : ∀ group ∈ Window.groupByStream adapted, ∀ merged,
      Window.combineAll caps.minStep group.2 = .ok merged →
      merged.stream = group.1 ∧ ∀ window ∈ group.2, Window.Covers caps.minStep window merged :=
    fun group hmem merged hmerged =>
      combineAll_group hmerged (hgrouped.nonempty group hmem) (hgrouped.members group hmem)
  refine ⟨?_, fun window hwindow => ?_, fun merged hmerged => ?_⟩
  · rw [← map_eq_map_of_forall₂ h fun group hmem merged hmerged =>
      (hgroup group hmem merged hmerged).1.symm]
    exact hgrouped.streams
  · obtain ⟨group, hmem, hwindow⟩ := List.mem_flatMap.mp (hgrouped.perm.mem_iff.mpr hwindow)
    obtain ⟨merged, hplanned, hmerged⟩ := exists_of_mem_left h hmem
    exact ⟨merged, hplanned, (hgroup group hmem merged hmerged).2 window hwindow⟩
  · obtain ⟨group, hmem, hcombined⟩ := exists_of_mem_right h hmerged
    obtain ⟨window, hwindow⟩ := List.exists_mem_of_ne_nil _ (hgrouped.nonempty group hmem)
    refine ⟨window, hgrouped.perm.mem_iff.mp (List.mem_flatMap.mpr ⟨group, hmem, hwindow⟩), ?_⟩
    exact (hgroup group hmem merged hcombined).2 window hwindow

/-- No window is lost where a dialect has one window for each stream. The planned windows are over the
streams of the query, one over each, and of kinds that the dialect has; and every window of the query,
as far as the dialect can express it, is covered by the planned window of its stream. -/
theorem ofQuery_covers {warnings warnings' : List String} (hone : caps.windowsPerStream = some 1)
    (h : (ofQuery dialect caps strict query).run warnings = .ok (plan, warnings')) :
    (plan.windows.map Window.stream).Nodup ∧
      (∀ stream, stream ∈ plan.windows.map Window.stream ↔ stream ∈ query.windows.map Window.stream) ∧
      (∀ planned ∈ plan.windows, caps.supportsKind planned.kind) ∧
      ∀ window ∈ query.windows, ∃ adapted, window.adapted? caps = some adapted ∧
        ∃ planned ∈ plan.windows, planned.stream = window.stream ∧
          Window.Covers caps.minStep adapted planned := by
  obtain ⟨adapted, hadapted, hmerged⟩ := (ensures_ofQuery query _ _ _ h).windows
  obtain ⟨hnodup, hcovered, hcovering⟩ := hmerged.covers hone
  have hwindow : ∀ window ∈ query.windows, ∃ adapted, window.adapted? caps = some adapted ∧
      ∃ planned ∈ plan.windows, planned.stream = window.stream ∧
        Window.Covers caps.minStep adapted planned := by
    intro window hwindow
    obtain ⟨between, hbetween, hspec, -⟩ := exists_of_mem_left hadapted hwindow
    obtain ⟨planned, hplanned, hcovers⟩ := hcovered between hbetween
    exact ⟨between, hspec, planned, hplanned,
      hcovers.stream.trans (Window.adapted?_names hspec).2, hcovers⟩
  have hplanned : ∀ planned ∈ plan.windows, caps.supportsKind planned.kind ∧
      ∃ window ∈ query.windows, window.stream = planned.stream := by
    intro planned hplanned
    obtain ⟨between, hbetween, hcovers⟩ := hcovering planned hplanned
    obtain ⟨window, hmem, hspec, hkind⟩ := exists_of_mem_right hadapted hbetween
    rw [hcovers.kind_eq]
    exact ⟨hkind, window, hmem,
      (hcovers.stream.trans (Window.adapted?_names hspec).2).symm⟩
  refine ⟨hnodup, fun stream => ⟨fun hstream => ?_, fun hstream => ?_⟩,
    fun planned hmem => (hplanned planned hmem).1, hwindow⟩
  · obtain ⟨planned, hmem, rfl⟩ := List.mem_map.mp hstream
    obtain ⟨-, window, hmem, hstream⟩ := hplanned planned hmem
    exact List.mem_map.mpr ⟨window, hmem, hstream⟩
  · obtain ⟨window, hmem, rfl⟩ := List.mem_map.mp hstream
    obtain ⟨-, -, planned, hmem, hstream, -⟩ := hwindow window hmem
    exact List.mem_map.mpr ⟨planned, hmem, hstream⟩

/-- Two windows over one stream, of a day and of an hour; the former has no step. -/
def dayAndHour : Query where
  prologue := .empty
  body := ⟨.select none [.punct "*"], [], some .nil, []⟩
  windows := [
    ⟨.iri ⟨"http://b/day", by decide⟩, .iri ⟨"http://b/readings", by decide⟩,
      .logical (.literal (.plain "P1D")), none⟩,
    ⟨.iri ⟨"http://b/hour", by decide⟩, .iri ⟨"http://b/readings", by decide⟩,
      .logical (.literal (.plain "PT1H")), some (.literal (.plain "PT1M"))⟩]
  output := none
  operator := .unspecified

/-- What covers both: a day that moves on by the smallest step. -/
def coveringDay : Window :=
  ⟨.iri ⟨"http://b/day", by decide⟩, .iri ⟨"http://b/readings", by decide⟩,
    .logical (.literal (.plain "P1D")), some (.ofDuration .millisecond)⟩

theorem groupByStream_dayAndHour : Window.groupByStream dayAndHour.windows =
    [(.iri ⟨"http://b/readings", by decide⟩, dayAndHour.windows)] := by
  rw [Window.groupByStream, Window.sorted, List.mergeSort_of_pairwise (by decide +kernel)]
  decide

theorem run_mergeWindows_dayAndHour :
    (mergeWindows .cSparql Dialect.cSparql.capabilities false dayAndHour.windows).run [] =
      .ok ([coveringDay], ["C-SPARQL does not support multiple windows over <http://b/readings>, " ++
        "2 windows are combined"]) := by
  rw [mergeWindows, groupByStream_dayAndHour]
  decide +kernel

theorem ofQuery_covers_dayAndHour :
    (∃ warnings, (ofQuery .cSparql Dialect.cSparql.capabilities false dayAndHour).run [] =
      .ok (⟨[coveringDay], .unspecified, none⟩, warnings)) ∧
      ∀ window ∈ dayAndHour.windows, ∃ adapted,
        window.adapted? Dialect.cSparql.capabilities = some adapted ∧
          ∃ planned ∈ [coveringDay], planned.stream = window.stream ∧
            Window.Covers Dialect.cSparql.capabilities.minStep adapted planned := by
  have hrun : ∃ warnings, (ofQuery .cSparql Dialect.cSparql.capabilities false dayAndHour).run [] =
      .ok (⟨[coveringDay], .unspecified, none⟩, warnings) :=
    ⟨_, run_bind_eq_ok.mpr ⟨dayAndHour.windows, [], rfl,
      run_bind_eq_ok.mpr ⟨_, _, run_mergeWindows_dayAndHour, rfl⟩⟩⟩
  refine ⟨hrun, ?_⟩
  obtain ⟨_, hrun⟩ := hrun
  exact (ofQuery_covers rfl hrun).2.2.2

end Plan

end StreamQuery
