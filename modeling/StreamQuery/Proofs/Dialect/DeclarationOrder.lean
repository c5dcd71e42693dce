import StreamQuery.Proofs.Codec.Renaming
import StreamQuery.Proofs.Dialect.Plan

/-! # The order of declarations

Nobody can tell in which order the windows of a query are declared. Before windows are sorted, a
projection looks at each of them alone; afterwards nothing depends on what it came across, since no step
looks at the warnings so far.
-/

namespace StreamQuery

namespace Projecting

variable {α β γ δ : Type}

/-- A computation that keeps warnings behind those so far and does not look at them. -/
def Writes (x : Projecting α) : Prop :=
  ∃ result : Except SerializationError (α × List String),
    ∀ warnings, x.run warnings = result.map fun r => (r.1, warnings ++ r.2)

/-- Outcomes that differ in the order of warnings and in related values. -/
inductive SameOutcome (r : α → β → Prop) :
    Except SerializationError (α × List String) → Except SerializationError (β × List String) → Prop where
  | error (e : SerializationError) : SameOutcome r (.error e) (.error e)
  | ok {a : α} {b : β} {warnings warnings' : List String} (hr : r a b)
      (hwarnings : warnings.Perm warnings') : SameOutcome r (.ok (a, warnings)) (.ok (b, warnings'))

/-- Computations that cannot be told apart but by the order of warnings and by related values. -/
def Alike (r : α → β → Prop) (x : Projecting α) (y : Projecting β) : Prop :=
  ∀ warnings warnings', warnings.Perm warnings' → SameOutcome r (x.run warnings) (y.run warnings')

namespace Writes

theorem pure (a : α) : Writes (Pure.pure a) :=
  ⟨.ok (a, []), fun warnings => by simp [Except.map]; rfl⟩

theorem throw (e : SerializationError) : Writes (throw e : Projecting α) :=
  ⟨.error e, fun _ => rfl⟩

theorem liftM (x : Except SerializationError α) : Writes (liftM x : Projecting α) := by
  cases x with
  | error e => exact throw e
  | ok a => exact pure a

theorem warn (message : String) : Writes (warn message) :=
  ⟨.ok ((), [message]), fun _ => rfl⟩

theorem lose (strict : Bool) (e : SerializationError) (message : String) :
    Writes (lose strict e message) := by
  cases strict with
  | true => exact throw e
  | false => exact warn message

theorem bind {x : Projecting α} {f : α → Projecting β} (hx : Writes x) (hf : ∀ a, Writes (f a)) :
    Writes (x >>= f) := by
  obtain ⟨result, hresult⟩ := hx
  cases result with
  | error e =>
      refine ⟨.error e, fun warnings => ?_⟩
      rw [StateT.run_bind, hresult]
      rfl
  | ok first =>
      obtain ⟨second, hsecond⟩ := hf first.1
      refine ⟨second.map fun r => (r.1, first.2 ++ r.2), fun warnings => ?_⟩
      rw [StateT.run_bind, hresult]
      change (f first.1).run (warnings ++ first.2) = _
      rw [hsecond]
      cases second with
      | error e => rfl
      | ok r => simp [Except.map]

theorem mapM {f : α → Projecting β} (hf : ∀ a, Writes (f a)) (as : List α) : Writes (as.mapM f) := by
  induction as with
  | nil => exact pure []
  | cons a as ih =>
      rw [List.mapM_cons]
      exact (hf a).bind fun b => ih.bind fun bs => pure (b :: bs)

theorem forM {f : α → Projecting Unit} (hf : ∀ a, Writes (f a)) (as : List α) : Writes (as.forM f) := by
  induction as with
  | nil => exact pure ()
  | cons a as ih => exact (hf a).bind fun _ => ih

/-- A computation is like itself, whatever the order of the warnings so far. -/
theorem alike {x : Projecting α} (hx : Writes x) : Alike (· = ·) x x := by
  obtain ⟨result, hresult⟩ := hx
  intro warnings warnings' hperm
  rw [hresult, hresult]
  cases result with
  | error e => exact .error e
  | ok r => exact .ok rfl (hperm.append_right r.2)

end Writes

namespace Alike

variable {r : α → β → Prop} {s : γ → δ → Prop} {x : Projecting α} {y : Projecting β}

theorem pure {a : α} {b : β} (h : r a b) : Alike r (Pure.pure a) (Pure.pure b) :=
  fun _ _ hperm => .ok h hperm

theorem throw (e : SerializationError) :
    Alike r (throw e : Projecting α) (throw e : Projecting β) := fun _ _ _ => .error e

theorem bind {f : α → Projecting γ} {g : β → Projecting δ} (hx : Alike r x y)
    (hf : ∀ a b, r a b → Alike s (f a) (g b)) : Alike s (x >>= f) (y >>= g) := by
  intro warnings warnings' hperm
  have hfirst := hx warnings warnings' hperm
  rw [StateT.run_bind, StateT.run_bind]
  generalize x.run warnings = first, y.run warnings' = first' at hfirst
  cases hfirst with
  | error e => exact .error e
  | ok hr hwarnings => exact hf _ _ hr _ _ hwarnings

theorem trans {t : α → γ → Prop} {u : β → γ → Prop} {z : Projecting γ} (hx : Alike r x y)
    (hy : Alike u y z) (ht : ∀ a b c, r a b → u b c → t a c) : Alike t x z := by
  intro warnings warnings' hperm
  have hfirst := hx warnings warnings' hperm
  have hsecond := hy warnings' warnings' (.refl _)
  generalize x.run warnings = first, y.run warnings' = second, z.run warnings' = third at hfirst hsecond
  cases hfirst with
  | error e =>
      cases hsecond with
      | error e => exact .error e
  | ok hr hwarnings =>
      cases hsecond with
      | ok hu hwarnings' => exact .ok (ht _ _ _ hr hu) (hwarnings.trans hwarnings')

/-- Two steps can change places if they fail in the same way. -/
theorem swap {x : Projecting α} {y : Projecting β} (hx : Writes x) (hy : Writes y)
    (herror : ∀ w w' e e', x.run w = .error e → y.run w' = .error e' → e = e') :
    Alike (fun p q => p.1 = q.2 ∧ p.2 = q.1) (do let b ← y; let a ← x; return (b, a))
      (do let a ← x; let b ← y; return (a, b)) := by
  obtain ⟨result, hresult⟩ := hx
  obtain ⟨result', hresult'⟩ := hy
  intro warnings warnings' hperm
  simp only [StateT.run_bind, hresult, hresult']
  cases result with
  | error e =>
      cases result' with
      | error e' =>
          -- each run stops at the step that it takes first
          rw [herror [] [] e e' (hresult []) (hresult' [])]
          exact .error e'
      | ok second =>
          exact .error e
  | ok first =>
      cases result' with
      | error e' =>
          exact .error e'
      | ok second =>
          refine .ok ⟨rfl, rfl⟩ ?_
          simp only [List.append_assoc]
          exact hperm.append List.perm_append_comm

/-- The same elements in another order have the same results in another order. -/
theorem mapM_of_perm {f : α → Projecting β} (hf : ∀ a, Writes (f a))
    (herror : ∀ a b w w' e e', (f a).run w = .error e → (f b).run w' = .error e' → e = e')
    {as bs : List α} (h : as.Perm bs) : Alike List.Perm (as.mapM f) (bs.mapM f) := by
  induction h with
  | nil => exact .pure (.refl _)
  | cons a _ ih =>
      rw [List.mapM_cons, List.mapM_cons]
      refine (hf a).alike.bind fun b b' hb => ?_
      subst hb
      exact ih.bind fun cs cs' hcs => .pure (hcs.cons b)
  | swap a b as =>
      -- the elements behind the two are taken in the same order by both runs
      have hstart : Alike _ _ _ := (swap (hf a) (hf b) (herror a b)).bind fun p q hpq =>
        (Writes.mapM hf as).alike.bind fun cs cs' hcs =>
          Alike.pure (r := List.Perm) (a := p.1 :: p.2 :: cs) (b := q.1 :: q.2 :: cs') ?_
      · simpa only [List.mapM_cons, bind_assoc, pure_bind] using hstart
      · obtain ⟨h, h'⟩ := hpq
        subst hcs
        rw [h, h']
        exact .swap _ _ _
  | trans _ _ ih ih' => exact ih.trans ih' fun _ _ _ => List.Perm.trans

end Alike

end Projecting

open Projecting

/-! ### No step looks at the warnings -/

namespace Plan

variable {dialect : Dialect} {caps : Capabilities} {strict : Bool}

theorem writes_adaptWindow (window : Window) : Writes (adaptWindow dialect caps strict window) := by
  unfold adaptWindow
  split
  · exact .pure _
  · split
    · split
      · exact (Writes.warn _).bind fun _ => .pure _
      · exact .throw _
    · exact .throw _

theorem writes_mergeGroup (stream : Term) (group : List Window) :
    Writes (mergeGroup dialect caps strict stream group) := by
  unfold mergeGroup
  split
  · exact (Writes.lose _ _ _).bind fun _ => .liftM _
  · exact .liftM _

theorem writes_mergeWindows (windows : List Window) :
    Writes (mergeWindows dialect caps strict windows) := by
  unfold mergeWindows
  split
  · exact .mapM (fun group : Term × List Window => writes_mergeGroup group.1 group.2) _
  · exact .pure _

theorem writes_chooseOperator (operator : OutputOperator) :
    Writes (chooseOperator dialect caps strict operator) := by
  unfold chooseOperator
  split
  · exact .pure _
  · exact (Writes.lose _ _ _).bind fun _ => .pure _

theorem writes_chooseOutput (output : Option Term) :
    Writes (chooseOutput dialect caps strict output) := by
  unfold chooseOutput
  split
  · exact .pure _
  · split
    · exact .pure _
    · exact (Writes.lose _ _ _).bind fun _ => .pure _

/-- What is planned for windows does not depend on their order. -/
theorem mergeWindows_congr {windows windows' : List Window} (h : windows.Perm windows') :
    mergeWindows dialect caps strict windows = mergeWindows dialect caps strict windows' := by
  unfold mergeWindows Window.groupByStream
  rw [Window.sorted_eq_of_perm h]

/-- A window that cannot be expressed fails for its kind. -/
theorem error_of_adaptWindow {window : Window} {warnings : List String} {e : SerializationError}
    (h : (adaptWindow dialect caps strict window).run warnings = .error e) :
    caps.supportsKind window.kind = false ∧ e = .windowKind dialect window.kind := by
  unfold adaptWindow at h
  split at h
  · cases h
  · next hkind =>
    refine ⟨by simpa using hkind, ?_⟩
    split at h
    · split at h
      · cases h
      · cases h
        rfl
    · cases h
      rfl

/-- Where only one kind of window is missing, plans for the same windows in another order are alike. -/
theorem alike_ofQuery {query : Query} {windows : List Window}
    (hkinds : ∀ kind kind', caps.supportsKind kind = false → caps.supportsKind kind' = false →
      kind = kind')
    (h : query.windows.Perm windows) :
    Alike (· = ·) (ofQuery dialect caps strict query)
      (ofQuery dialect caps strict { query with windows }) := by
  -- only this step goes through the windows in their own order; behind it they are sorted
  have hadapt : Alike List.Perm (query.windows.mapM (adaptWindow dialect caps strict))
      (windows.mapM (adaptWindow dialect caps strict)) := by
    refine .mapM_of_perm writes_adaptWindow (fun a b w w' e e' ha hb => ?_) h
    obtain ⟨hkind, rfl⟩ := error_of_adaptWindow ha
    obtain ⟨hkind', rfl⟩ := error_of_adaptWindow hb
    rw [hkinds _ _ hkind hkind']
  have hform : Query.form { query with windows } = query.form := rfl
  unfold ofQuery
  dsimp only
  rw [hform]
  split
  · exact .throw _
  · refine hadapt.bind fun adapted adapted' hadapted => ?_
    rw [mergeWindows_congr hadapted]
    exact ((writes_mergeWindows _).bind fun _ => (writes_chooseOperator _).bind fun _ =>
      (writes_chooseOutput _).bind fun _ => .pure _).alike

end Plan

theorem Window.writes_itemsFrame {dialect : Dialect} {strict : Bool} (window : Window) (items : Term) :
    Writes (window.itemsFrame dialect strict items) := by
  unfold Window.itemsFrame
  dsimp only
  split
  · exact (Writes.lose _ _ _).bind fun _ => (Writes.liftM _).bind fun _ => .pure _
  · exact (Writes.liftM _).bind fun _ => .pure _

/-- No dialect lacks more than one kind of window. -/
theorem kind_eq_of_unsupported {dialect : Dialect} (kind kind' : WindowKind)
    (h : dialect.capabilities.supportsKind kind = false)
    (h' : dialect.capabilities.supportsKind kind' = false) : kind = kind' := by
  cases dialect <;> cases kind <;> cases kind' <;> first
    | rfl
    | exact absurd h (by decide)
    | exact absurd h' (by decide)

variable {query : Query} {windows : List Window} {strict : Bool}

theorem CSparql.writes_streamClause (window : Window) : Writes (CSparql.streamClause strict window) := by
  unfold CSparql.streamClause
  cases window.frame with
  | logical range =>
      cases window.step with
      | some step =>
          exact (Writes.liftM _).bind fun _ => (Writes.pure step).bind fun _ =>
            (Writes.liftM _).bind fun _ => .pure _
      | none =>
          exact (Writes.liftM _).bind fun _ => (Writes.warn _).bind fun _ => (Writes.pure _).bind fun _ =>
            (Writes.liftM _).bind fun _ => .pure _
  | past start stop => exact .throw _
  | physical items => exact (Window.writes_itemsFrame window items).bind fun _ => .pure _

theorem CSparql.alike_project (h : query.windows.Perm windows) :
    Alike (· = ·) (CSparql.project query strict) (CSparql.project { query with windows } strict) := by
  refine (Plan.alike_ofQuery kind_eq_of_unsupported h).bind fun plan plan' hplan => ?_
  subst hplan
  exact ((Writes.mapM CSparql.writes_streamClause _).bind fun _ => .pure _).alike

theorem CqelsQl.writes_streamHeader (window : Window) : Writes (CqelsQl.streamHeader strict window) := by
  unfold CqelsQl.streamHeader
  cases window.frame with
  | logical range =>
      cases window.step with
      | some step => exact (Writes.liftM _).bind fun _ => (Writes.liftM _).bind fun _ => .pure _
      | none => exact (Writes.liftM _).bind fun _ => .pure _
  | past start stop => exact .throw _
  | physical items => exact (Window.writes_itemsFrame window items).bind fun _ => .pure _

theorem CqelsQl.writes_checkUse (used : List Term) (id : Term) :
    Writes (CqelsQl.checkUse strict used id) := by
  unfold CqelsQl.checkUse
  split
  · exact .pure _
  · exact .lose _ _ _

theorem CqelsQl.alike_project (h : query.windows.Perm windows) :
    Alike (· = ·) (CqelsQl.project query strict) (CqelsQl.project { query with windows } strict) := by
  refine (Plan.alike_ofQuery kind_eq_of_unsupported h).bind fun plan plan' hplan => ?_
  subst hplan
  refine Writes.alike (.bind (.mapM (fun window => ?_) _) fun headers => ?_)
  · exact (CqelsQl.writes_streamHeader window).bind fun _ => .pure _
  · dsimp only
    split
    · exact .throw _
    · exact (Writes.forM (CqelsQl.writes_checkUse _) _).bind fun _ =>
        (Writes.forM (fun _ => .forM (fun _ => .lose _ _ _) _) _).bind fun _ => .pure _

theorem SparqlStream.writes_withoutGraphs : Writes (SparqlStream.withoutGraphs strict query) := by
  unfold SparqlStream.withoutGraphs
  split
  · exact .pure _
  · exact (Writes.forM (fun _ => .lose _ _ _) _).bind fun _ => .pure _

theorem SparqlStream.alike_project (h : query.windows.Perm windows) :
    Alike (· = ·) (SparqlStream.project query strict)
      (SparqlStream.project { query with windows } strict) := by
  refine (Plan.alike_ofQuery kind_eq_of_unsupported h).bind fun plan plan' hplan => ?_
  subst hplan
  exact ((Writes.liftM _).bind fun _ => SparqlStream.writes_withoutGraphs.bind fun _ => .pure _).alike

/-! ### Queries that differ in the order of their windows -/

/-- Outcomes of projections that differ in the order of their warnings alone. -/
inductive Projection.SameOutcome :
    Except SerializationError Projection → Except SerializationError Projection → Prop where
  | error (e : SerializationError) : SameOutcome (.error e) (.error e)
  | ok {text : String} {warnings warnings' : List String} (h : warnings.Perm warnings') :
      SameOutcome (.ok ⟨text, warnings⟩) (.ok ⟨text, warnings'⟩)

theorem Projecting.Alike.outcome {x y : Projecting String} (h : Alike (· = ·) x y) :
    Projection.SameOutcome x.outcome y.outcome := by
  have hrun := h [] [] (.refl _)
  unfold Projecting.outcome
  generalize x.run [] = first, y.run [] = second at hrun
  cases hrun with
  | error e => exact .error e
  | ok hr hwarnings =>
      cases hr
      exact .ok hwarnings

/-- The order in which windows are declared cannot be observed: not by equality, not in the graph of a
query, and not in what it is written as in any of the restrictive dialects. -/
theorem Query.declaration_order (h : query.windows.Perm windows) :
    query.sameAs { query with windows } ∧
      (∀ supply supply', Function.Injective supply → Function.Injective supply' →
        (query.graphWith supply).SameUpToLabels (Query.graphWith { query with windows } supply')) ∧
      ∀ dialect ∈ [Dialect.cSparql, .cqelsQl, .sparqlStream], ∀ strict,
        Projection.SameOutcome (query.project dialect strict)
          (Query.project { query with windows } dialect strict) := by
  refine ⟨?_, fun supply supply' hsupply hsupply' => ?_, fun dialect hdialect strict => ?_⟩
  · simp [sameAs, Window.sorted_eq_of_perm h]
  · have hencoder : Encoder.query { query with windows } = Encoder.query query := by
      unfold Encoder.query
      rw [Window.sorted_eq_of_perm h]
      rfl
    rw [graphWith, graphWith, hencoder]
    exact query.graphWith_sameUpToLabels hsupply hsupply'
  · cases dialect with
    | rspQl => simp at hdialect
    | cqelsQl => exact (CqelsQl.alike_project h).outcome
    | cSparql => exact (CSparql.alike_project h).outcome
    | sparqlStream => exact (SparqlStream.alike_project h).outcome

theorem Query.declaration_order_dayAndHour :
    let reversed : Query := { Plan.dayAndHour with windows := Plan.dayAndHour.windows.reverse }
    Plan.dayAndHour.sameAs reversed ∧ Plan.dayAndHour.graph.SameUpToLabels reversed.graph ∧
      ∀ dialect ∈ [Dialect.cSparql, .cqelsQl, .sparqlStream], ∀ strict,
        Projection.SameOutcome (Plan.dayAndHour.project dialect strict) (reversed.project dialect strict) := by
  obtain ⟨hsame, hgraph, hproject⟩ := declaration_order (List.reverse_perm Plan.dayAndHour.windows).symm
  exact ⟨hsame, hgraph _ _ Encoding.numbered_injective Encoding.numbered_injective, hproject⟩

end StreamQuery
