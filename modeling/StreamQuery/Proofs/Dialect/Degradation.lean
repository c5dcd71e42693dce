import StreamQuery.Proofs.Dialect.Agreement

/-! # Strict and lenient mode

Every step of a projection agrees with itself in the two modes, so that the projections do. The
text of a loss is never that of a note, and no failure behind the checks stands for a loss.
-/

namespace StreamQuery

open Projecting

/-! ### Computations that never fail for a loss -/

namespace Scalar

variable {scalar : Scalar} {widening : Widening} {minStep : Duration} {stream : Term}
  {field : String}

theorem faultless_readDuration {term : Term} : Faultless (readDuration stream field term) := by
  unfold readDuration
  split
  · exact .ok _
  · exact .error rfl
  · exact .error rfl

theorem faultless_readCount {term : Term} : Faultless (readCount stream field term) := by
  unfold readCount
  split
  · exact .ok _
  · exact .error rfl

theorem faultless_compareTerms {a b : Term} :
    Faultless (scalar.compareTerms stream field a b) := by
  cases scalar with
  | duration => exact faultless_readDuration.bind fun _ => faultless_readDuration.bind fun _ => .ok _
  | count => exact faultless_readCount.bind fun _ => faultless_readCount.bind fun _ => .ok _

theorem faultless_widen {a b : Term} : Faultless (scalar.widen widening stream field a b) := by
  unfold widen
  split
  · exact .ok _
  · split
    · exact .error rfl
    · exact faultless_compareTerms.bind fun _ => .ok _

theorem faultless_widenStep {a b : Option Term} :
    Faultless (scalar.widenStep minStep stream a b) := by
  unfold widenStep
  split
  · exact .ok _
  all_goals exact faultless_widen.map _

end Scalar

namespace Window

variable {dialect : Dialect} {minStep : Duration} {stream : Term} {field : String}

theorem faultless_combineFrames {a b : Frame} : Faultless (combineFrames stream a b) := by
  unfold combineFrames
  split
  · exact Scalar.faultless_widen.map _
  · exact Scalar.faultless_widen.map _
  · exact Scalar.faultless_widen.bind fun _ => Scalar.faultless_widen.bind fun _ => .ok _
  · exact .error rfl

theorem faultless_combine {a b : Window} : Faultless (combine minStep a b) :=
  faultless_combineFrames.bind fun _ => Scalar.faultless_widenStep.bind fun _ => .ok _

theorem faultless_combineAll {windows : List Window} :
    Faultless (combineAll minStep windows) := by
  cases windows with
  | nil => exact .error rfl
  | cons first rest =>
      rw [combineAll]
      exact .foldlM (fun _ _ => faultless_combine) rest first

theorem faultless_durationText {window : Window} {term : Term} :
    Faultless (window.durationText dialect field term) := by
  unfold durationText
  split
  · exact .ok _
  · split
    · exact .error rfl
    · exact .error rfl
    · split
      · exact .ok _
      · exact .error rfl

theorem faultless_countText {window : Window} {term : Term} :
    Faultless (window.countText field term) := by
  unfold countText
  split
  · exact .ok _
  · split
    · exact .ok _
    · exact .error rfl

end Window

theorem SparqlStream.faultless_streamClause {window : Window} :
    Faultless (SparqlStream.streamClause window) := by
  unfold SparqlStream.streamClause
  cases window.step <;> cases window.frame
  all_goals
    repeat first
      | exact .ok _
      | exact .error rfl
      | refine Window.faultless_durationText.bind fun _ => ?_

/-! ### The steps of a projection -/

namespace Plan

variable {dialect : Dialect} {caps : Capabilities}

theorem agree_adaptWindow (window : Window) :
    Agree dialect (adaptWindow dialect caps true window) (adaptWindow dialect caps false window) := by
  unfold adaptWindow
  split
  · exact .pure _
  · split
    · next logical _ =>
      cases caps.supportsKind .logical with
      | false => exact .throw rfl
      | true =>
          refine Agree.bind (.lose ?_) fun _ => .pure logical
          refine Dialect.not_isNote dialect.name ?_ ?_
          · simp [String.toList_append, ToString.toString]
          · rintro rfl
            decide
    · exact .throw rfl

theorem agree_mergeGroup (stream : Term) (group : List Window) :
    Agree dialect (mergeGroup dialect caps true stream group)
      (mergeGroup dialect caps false stream group) := by
  unfold mergeGroup
  split
  · refine .bind (.lose ?_) fun _ => .liftM Window.faultless_combineAll
    refine Dialect.not_isNote dialect.name (by simp [String.toList_append, ToString.toString]) ?_
    rintro rfl
    decide
  · exact .liftM Window.faultless_combineAll

theorem agree_mergeWindows (windows : List Window) :
    Agree dialect (mergeWindows dialect caps true windows) (mergeWindows dialect caps false windows) := by
  unfold mergeWindows
  split
  · exact .mapM (fun _ => agree_mergeGroup _ _) _
  · exact .pure _

theorem agree_chooseOperator (operator : OutputOperator) :
    Agree dialect (chooseOperator dialect caps true operator)
      (chooseOperator dialect caps false operator) := by
  unfold chooseOperator
  split
  · exact .pure _
  · refine .bind (.lose ?_) fun _ => .pure _
    refine Dialect.not_isNote operator.name (by simp [String.toList_append, ToString.toString]) fun _ => ?_
    cases operator <;> decide

theorem agree_chooseOutput (output : Option Term) :
    Agree dialect (chooseOutput dialect caps true output) (chooseOutput dialect caps false output) := by
  unfold chooseOutput
  split
  · exact .pure _
  · split
    · exact .pure _
    · refine .bind (.lose ?_) fun _ => .pure _
      exact Dialect.not_isNote "REGISTER" (by simp [String.toList_append, ToString.toString])
        fun _ => by decide

theorem agree_ofQuery (query : Query) :
    Agree dialect (ofQuery dialect caps true query) (ofQuery dialect caps false query) := by
  unfold ofQuery
  dsimp only
  split
  · exact .throw rfl
  · refine .bind (.mapM agree_adaptWindow _) fun windows => ?_
    refine .bind (agree_mergeWindows windows) fun windows => ?_
    refine .bind (agree_chooseOperator _) fun operator => ?_
    exact .bind (agree_chooseOutput _) fun output => .pure _

end Plan

theorem Window.agree_itemsFrame {dialect : Dialect} (window : Window) (items : Term) :
    Agree dialect (window.itemsFrame dialect true items)
      (window.itemsFrame dialect false items) := by
  unfold Window.itemsFrame
  dsimp only
  split
  · refine .bind (.lose ?_) fun _ => .bind (.liftM Window.faultless_countText) fun _ => .pure _
    refine Dialect.not_isNote "STEP of physical window " ?_ fun _ => by decide
    simp [String.toList_append, ToString.toString]
  · exact .bind (.liftM Window.faultless_countText) fun _ => .pure _

theorem CSparql.agree_streamClause (window : Window) :
    Agree .cSparql (CSparql.streamClause true window) (CSparql.streamClause false window) := by
  unfold CSparql.streamClause
  cases window.frame with
  | logical range =>
      refine .bind (.liftM Window.faultless_durationText) fun range => ?_
      cases window.step with
      | some step =>
          refine .bind (.pure step) fun step => ?_
          exact .bind (.liftM Window.faultless_durationText) fun _ => .pure _
      | none =>
          refine .bind (.warn _) fun _ => .bind (.pure _) fun step => ?_
          exact .bind (.liftM Window.faultless_durationText) fun _ => .pure _
  | past start stop => exact .throw rfl
  | physical items => exact .bind (Window.agree_itemsFrame window items) fun _ => .pure _

theorem CSparql.agree_project (query : Query) :
    Agree .cSparql (CSparql.project query true) (CSparql.project query false) :=
  .bind (Plan.agree_ofQuery query) fun _ =>
    .bind (.mapM CSparql.agree_streamClause _) fun _ => .pure _

theorem CqelsQl.agree_streamHeader (window : Window) :
    Agree .cqelsQl (CqelsQl.streamHeader true window) (CqelsQl.streamHeader false window) := by
  unfold CqelsQl.streamHeader
  cases window.frame with
  | logical range =>
      refine .bind (.liftM Window.faultless_durationText) fun range => ?_
      cases window.step with
      | some step => exact .bind (.liftM Window.faultless_durationText) fun _ => .pure _
      | none => exact .pure _
  | past start stop => exact .throw rfl
  | physical items => exact .bind (Window.agree_itemsFrame window items) fun _ => .pure _

theorem CqelsQl.agree_checkBlock (name : Term) (block : Pattern) :
    Agree .cqelsQl (CqelsQl.checkBlock true name block) (CqelsQl.checkBlock false name block) :=
  .forM (fun _ => .lose_of_ne (by decide)) _

theorem CqelsQl.agree_checkUse (used : List Term) (id : Term) :
    Agree .cqelsQl (CqelsQl.checkUse true used id) (CqelsQl.checkUse false used id) := by
  unfold CqelsQl.checkUse
  split
  · exact .pure _
  · exact .lose_of_ne (by decide)

theorem CqelsQl.agree_project (query : Query) :
    Agree .cqelsQl (CqelsQl.project query true) (CqelsQl.project query false) := by
  unfold CqelsQl.project
  refine .bind (Plan.agree_ofQuery query) fun plan => ?_
  refine .bind (.mapM (fun window => ?_) _) fun headers => ?_
  · exact .bind (CqelsQl.agree_streamHeader window) fun _ => .pure _
  · dsimp only
    split
    · exact .throw rfl
    · refine .bind (.forM (CqelsQl.agree_checkUse _) _) fun _ => ?_
      exact .bind (.forM (fun _ => CqelsQl.agree_checkBlock _ _) _) fun _ => .pure _

theorem SparqlStream.agree_withoutGraphs (query : Query) :
    Agree .sparqlStream (SparqlStream.withoutGraphs true query)
      (SparqlStream.withoutGraphs false query) := by
  unfold SparqlStream.withoutGraphs
  split
  · exact .pure _
  · exact .bind (.forM (fun _ => .lose_of_ne (by decide)) _) fun _ => .pure _

theorem SparqlStream.agree_project (query : Query) :
    Agree .sparqlStream (SparqlStream.project query true) (SparqlStream.project query false) :=
  .bind (Plan.agree_ofQuery query) fun _ =>
    .bind (.liftM (.mapM (fun _ => SparqlStream.faultless_streamClause) _)) fun _ =>
      .bind (SparqlStream.agree_withoutGraphs query) fun _ => .pure _

/-- Strict and lenient mode differ in nothing but losses. What strict mode writes, lenient mode
writes as well and with the same notes; what lenient mode writes without a loss, strict mode
writes as well; and lenient mode never fails for a loss. -/
theorem Query.project_strict_lenient (query : Query) (dialect : Dialect) :
    (∀ projection, query.project dialect true = .ok projection →
      query.project dialect false = .ok projection) ∧
    (∀ projection, query.project dialect false = .ok projection →
      projection.Lossless dialect → query.project dialect true = .ok projection) ∧
    ∀ error, query.project dialect false = .error error → error.isLoss = false := by
  cases dialect with
  | rspQl => exact ⟨fun _ h => h, fun _ h _ => h, nofun⟩
  | cqelsQl => exact (CqelsQl.agree_project query).outcome
  | cSparql => exact (CSparql.agree_project query).outcome
  | sparqlStream => exact (SparqlStream.agree_project query).outcome

end StreamQuery
