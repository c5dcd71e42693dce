import StreamQuery.Dialect.Projection

/-! # Agreement of projections

A strict projection and a lenient one take the same steps until something would be lost. The
relation `Agree` says so of two computations, and is kept by everything that projections are
composed of.
-/

namespace StreamQuery

/-- The failures that stand for a loss, which lenient mode degrades instead. -/
def SerializationError.isLoss : SerializationError → Bool
  | multipleWindows _ _ | outputOperator _ _ | outputStreamName _ | construct _ _ => true
  | _ => false

/-- The note that the window of a name has no step. -/
def CSparql.stepNote (id : String) : String :=
  s!"STEP of window {id} is missing, using the minimum value (1ms)"

/-- The warnings that tell of an added step and not of a loss. -/
def Dialect.IsNote (dialect : Dialect) (warning : String) : Prop :=
  dialect = .cSparql ∧ ∃ id, warning = CSparql.stepNote id

/-- A text whose beginning differs from that of the notes is none of them. -/
theorem Dialect.not_isNote {dialect : Dialect} {warning : String} (start : String)
    (hstart : start.toList <+: warning.toList)
    (hdiffers : dialect = .cSparql →
      ¬ start.toList <+: "STEP of window ".toList ∧ ¬ "STEP of window ".toList <+: start.toList) :
    ¬ dialect.IsNote warning := by
  rintro ⟨hdialect, id, rfl⟩
  have hnote : "STEP of window ".toList <+: (CSparql.stepNote id).toList := by
    simp [CSparql.stepNote, String.toList_append, ToString.toString]
  obtain ⟨hleft, hright⟩ := hdiffers hdialect
  rcases List.prefix_or_prefix_of_prefix hstart hnote with h | h
  · exact hleft h
  · exact hright h

/-- A projection that lost nothing. -/
def Projection.Lossless (dialect : Dialect) (projection : Projection) : Prop :=
  ∀ warning ∈ projection.warnings, dialect.IsNote warning

/-- A computation that does not fail for a loss. -/
def Faultless {α : Type} (result : Except SerializationError α) : Prop :=
  ∀ error, result = .error error → error.isLoss = false

namespace Faultless

variable {α β : Type}

theorem ok (a : α) : Faultless (.ok a) := nofun

theorem error {e : SerializationError} (h : e.isLoss = false) :
    Faultless (.error e : Except SerializationError α) := by
  intro e' he
  cases he
  exact h

theorem bind {x : Except SerializationError α} {f : α → Except SerializationError β}
    (hx : Faultless x) (hf : ∀ a, Faultless (f a)) : Faultless (x >>= f) := by
  cases x with
  | error e => exact error (hx e rfl)
  | ok a => exact hf a

theorem map {x : Except SerializationError α} (f : α → β) (hx : Faultless x) :
    Faultless (f <$> x) := by
  cases x with
  | error e => exact error (hx e rfl)
  | ok a => exact ok (f a)

theorem foldlM {f : β → α → Except SerializationError β} (hf : ∀ b a, Faultless (f b a))
    (as : List α) (b : β) : Faultless (as.foldlM f b) := by
  induction as generalizing b with
  | nil => exact ok b
  | cons a as ih =>
      rw [List.foldlM_cons]
      exact (hf b a).bind fun b' => ih b'

theorem mapM {f : α → Except SerializationError β} (hf : ∀ a, Faultless (f a)) (as : List α) :
    Faultless (as.mapM f) := by
  induction as with
  | nil => exact ok []
  | cons a as ih =>
      rw [List.mapM_cons]
      exact (hf a).bind fun b => ih.bind fun bs => ok (b :: bs)

end Faultless

namespace Projecting

/-- What a strict run and a lenient run of one computation have in common. -/
structure Agree (dialect : Dialect) {α : Type} (strict lenient : Projecting α) : Prop where
  of_strict : ∀ warnings result, strict.run warnings = .ok result →
    lenient.run warnings = .ok result
  of_lenient : ∀ warnings a warnings', lenient.run warnings = .ok (a, warnings') →
    ∃ added, warnings' = warnings ++ added ∧
      ((∀ warning ∈ added, dialect.IsNote warning) → strict.run warnings = .ok (a, warnings'))
  faultless : ∀ warnings, Faultless (lenient.run warnings)

variable {α β : Type} {dialect : Dialect}

theorem run_bind_eq_ok {x : Projecting α} {f : α → Projecting β} {warnings : List String}
    {result : β × List String} : (x >>= f).run warnings = .ok result ↔
      ∃ a between, x.run warnings = .ok (a, between) ∧ (f a).run between = .ok result := by
  rw [StateT.run_bind]
  cases x.run warnings with
  | error e => simp [Bind.bind, Except.bind]
  | ok r =>
      obtain ⟨a, between⟩ := r
      constructor
      · exact fun h => ⟨a, between, rfl, h⟩
      · rintro ⟨a', between', hfirst, hsecond⟩
        cases hfirst
        exact hsecond

theorem outcome_eq_ok {x : Projecting String} {projection : Projection} :
    x.outcome = .ok projection ↔
      ∃ result, x.run [] = .ok result ∧ ⟨result.1, result.2⟩ = projection := by
  unfold outcome
  cases x.run [] with
  | error e => simp [Except.map]
  | ok result => simp [Except.map]

namespace Agree

theorem pure (a : α) : Agree dialect (Pure.pure a) (Pure.pure a) where
  of_strict _ _ h := h
  of_lenient warnings _ _ h := by
    cases h
    exact ⟨[], by simp, fun _ => rfl⟩
  faultless _ := Faultless.ok _

theorem bind {x x' : Projecting α} {f f' : α → Projecting β} (hx : Agree dialect x x')
    (hf : ∀ a, Agree dialect (f a) (f' a)) : Agree dialect (x >>= f) (x' >>= f') where
  of_strict warnings result h := by
    obtain ⟨a, between, hfirst, hsecond⟩ := run_bind_eq_ok.mp h
    exact run_bind_eq_ok.mpr
      ⟨a, between, hx.of_strict _ _ hfirst, (hf a).of_strict _ _ hsecond⟩
  of_lenient warnings b warnings' h := by
    obtain ⟨a, between, hfirst, hsecond⟩ := run_bind_eq_ok.mp h
    obtain ⟨first, rfl, hstrict⟩ := hx.of_lenient _ _ _ hfirst
    obtain ⟨second, rfl, hstrict'⟩ := (hf a).of_lenient _ _ _ hsecond
    refine ⟨first ++ second, List.append_assoc _ _ _, fun hnotes => ?_⟩
    exact run_bind_eq_ok.mpr ⟨a, _,
      hstrict fun w hw => hnotes w (List.mem_append_left _ hw),
      hstrict' fun w hw => hnotes w (List.mem_append_right _ hw)⟩
  faultless warnings := by
    rw [StateT.run_bind]
    exact (hx.faultless warnings).bind fun r => (hf r.1).faultless r.2

theorem throw {e : SerializationError} (h : e.isLoss = false) :
    Agree dialect (throw e : Projecting α) (throw e) where
  of_strict _ _ h := h
  of_lenient _ _ _ h := by cases h
  faultless _ := Faultless.error h

theorem liftM {x : Except SerializationError α} (hx : Faultless x) :
    Agree dialect (liftM x : Projecting α) (liftM x) where
  of_strict _ _ h := h
  of_lenient warnings a warnings' h := by
    cases x with
    | error e => cases h
    | ok a =>
        cases h
        exact ⟨[], by simp, fun _ => rfl⟩
  faultless warnings := by
    cases x with
    | error e => exact Faultless.error (hx e rfl)
    | ok a => exact Faultless.ok _

theorem warn (message : String) : Agree dialect (warn message) (warn message) where
  of_strict _ _ h := h
  of_lenient warnings _ _ h := by
    cases h
    exact ⟨[message], rfl, fun _ => rfl⟩
  faultless _ := Faultless.ok _

/-- A loss is an error in one run and a warning in the other. -/
theorem lose {e : SerializationError} {message : String} (h : ¬ dialect.IsNote message) :
    Agree dialect (lose true e message) (lose false e message) where
  of_strict _ _ h := by cases h
  of_lenient warnings _ _ hrun := by
    cases hrun
    exact ⟨[message], rfl, fun hnotes => absurd (hnotes message List.mem_cons_self) h⟩
  faultless _ := Faultless.ok _

theorem lose_of_ne {e : SerializationError} {message : String} (h : dialect ≠ .cSparql) :
    Agree dialect (Projecting.lose true e message) (Projecting.lose false e message) :=
  lose fun hnote => h hnote.1

theorem mapM {f f' : α → Projecting β} (hf : ∀ a, Agree dialect (f a) (f' a)) (as : List α) :
    Agree dialect (as.mapM f) (as.mapM f') := by
  induction as with
  | nil => exact .pure []
  | cons a as ih =>
      rw [List.mapM_cons, List.mapM_cons]
      exact (hf a).bind fun b => ih.bind fun bs => .pure (b :: bs)

theorem forM {f f' : α → Projecting Unit} (hf : ∀ a, Agree dialect (f a) (f' a))
    (as : List α) : Agree dialect (as.forM f) (as.forM f') := by
  induction as with
  | nil => exact .pure ()
  | cons a as ih =>
      exact (hf a).bind fun _ => ih

/-- What agreement means for the outcomes of two projections. -/
theorem outcome {strict lenient : Projecting String} (h : Agree dialect strict lenient) :
    (∀ projection, strict.outcome = .ok projection → lenient.outcome = .ok projection) ∧
    (∀ projection, lenient.outcome = .ok projection → projection.Lossless dialect →
      strict.outcome = .ok projection) ∧
    ∀ error, lenient.outcome = .error error → error.isLoss = false := by
  refine ⟨fun projection hstrict => ?_, fun projection hlenient hnotes => ?_,
    fun error hlenient => ?_⟩
  · obtain ⟨result, hrun, hresult⟩ := outcome_eq_ok.mp hstrict
    exact outcome_eq_ok.mpr ⟨result, h.of_strict _ _ hrun, hresult⟩
  · obtain ⟨⟨text, warnings⟩, hrun, rfl⟩ := outcome_eq_ok.mp hlenient
    obtain ⟨added, rfl, hstrict⟩ := h.of_lenient _ _ _ hrun
    exact outcome_eq_ok.mpr ⟨_, hstrict hnotes, rfl⟩
  · refine h.faultless [] error ?_
    unfold Projecting.outcome at hlenient
    cases hrun : lenient.run [] with
    | error e =>
        rw [hrun] at hlenient
        cases hlenient
        rfl
    | ok result =>
        rw [hrun] at hlenient
        cases hlenient

end Agree

end Projecting

end StreamQuery
