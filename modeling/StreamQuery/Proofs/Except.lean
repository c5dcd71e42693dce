import Mathlib.Data.List.Forall2
import StreamQuery.Query.Error

/-! # Steps that may fail

A sequence of steps succeeds if each of them does. Where steps change a state as well, what follows a
step goes on in the state where the step ended.
-/

namespace StreamQuery

variable {ε ε' α β : Type} {b : β}

theorem bind_eq_ok_iff {x : Except ε α} {f : α → Except ε β} :
    (x >>= f) = .ok b ↔ ∃ a, x = .ok a ∧ f a = .ok b := by
  cases x with
  | error e => exact ⟨nofun, nofun⟩
  | ok a => exact ⟨fun h => ⟨a, rfl, h⟩, fun ⟨_, ha, h⟩ => by cases ha; exact h⟩

theorem ok_bind (a : α) (f : α → Except ε β) : (Except.ok a >>= f) = f a := rfl

theorem ok_of_mem_toOption {x : Except ε α} {a : α} (h : a ∈ x.toOption) : x = .ok a := by
  cases x with
  | error e => cases h
  | ok a' => exact congrArg _ (Option.some.inj h)

/-- A sequence succeeds if both steps do, where success of the second one does not depend on the first. -/
theorem exists_bind_eq_ok_iff {x : Except ε α} {f : α → Except ε β} {c d : Prop}
    (hx : (∃ a, x = .ok a) ↔ c) (hf : ∀ a, (∃ b, f a = .ok b) ↔ d) :
    (∃ b, (x >>= f) = .ok b) ↔ c ∧ d := by
  rw [← hx]
  constructor
  · rintro ⟨b, hb⟩
    obtain ⟨a, ha, hb⟩ := bind_eq_ok_iff.mp hb
    exact ⟨⟨a, ha⟩, (hf a).mp ⟨b, hb⟩⟩
  · rintro ⟨⟨a, ha⟩, hd⟩
    obtain ⟨b, hb⟩ := (hf a).mpr hd
    exact ⟨b, bind_eq_ok_iff.mpr ⟨a, ha, hb⟩⟩

theorem exists_mapM_eq_ok_iff {f : α → Except ε β} (as : List α) :
    (∃ bs, as.mapM f = .ok bs) ↔ ∀ a ∈ as, ∃ b, f a = .ok b := by
  induction as with
  | nil => exact iff_of_true ⟨[], rfl⟩ (by simp)
  | cons a as ih =>
      rw [List.mapM_cons, List.forall_mem_cons]
      refine exists_bind_eq_ok_iff Iff.rfl fun b => (exists_bind_eq_ok_iff ih fun bs => ?_).trans
        (and_iff_left trivial)
      exact iff_of_true ⟨b :: bs, rfl⟩ trivial

theorem mapM_eq_ok_iff {f : α → Except ε β} {as : List α} {bs : List β} :
    as.mapM f = .ok bs ↔ List.Forall₂ (fun a b => f a = .ok b) as bs := by
  constructor
  · intro h
    induction as generalizing bs with
    | nil =>
        cases h
        exact .nil
    | cons a as ih =>
        rw [List.mapM_cons] at h
        obtain ⟨b, hb, h⟩ := bind_eq_ok_iff.mp h
        obtain ⟨bs, hbs, h⟩ := bind_eq_ok_iff.mp h
        cases h
        exact .cons hb (ih hbs)
  · intro h
    induction h with
    | nil => rfl
    | cons hb _ ih =>
        rw [List.mapM_cons]
        exact bind_eq_ok_iff.mpr ⟨_, hb, bind_eq_ok_iff.mpr ⟨_, ih, rfl⟩⟩

theorem map_eq_ok_iff {x : Except ε α} {f : α → β} : f <$> x = .ok b ↔ ∃ a, x = .ok a ∧ f a = b := by
  cases x with
  | error e => exact ⟨nofun, nofun⟩
  | ok a => exact ⟨fun h => ⟨a, rfl, Except.ok.inj h⟩, fun ⟨_, ha, h⟩ => by cases ha; exact congrArg _ h⟩

theorem mapError_eq_ok_iff {x : Except ε β} {f : ε → ε'} :
    x.mapError f = .ok b ↔ x = .ok b := by
  cases x with
  | error e => exact ⟨nofun, nofun⟩
  | ok a => exact ⟨fun h => by cases h; rfl, fun h => by cases h; rfl⟩

/-! ## Steps that change a state -/

variable {σ : Type} {state next : σ}

theorem run_get_bind (rest : σ → ExceptT ε (StateM σ) α) (state : σ) :
    (get >>= rest : ExceptT ε (StateM σ) α).run.run state = (rest state).run.run state := rfl

theorem run_bind_of_ok {step : ExceptT ε (StateM σ) α} {a : α}
    (h : step.run.run state = (.ok a, next)) (rest : α → ExceptT ε (StateM σ) β) :
    (step >>= rest).run.run state = (rest a).run.run next := by
  change (ExceptT.bindCont rest (step.run.run state).1).run (step.run.run state).2 = _
  rw [h]
  rfl

theorem run_bind_of_error {step : ExceptT ε (StateM σ) α} {error : ε}
    (h : step.run.run state = (.error error, next)) (rest : α → ExceptT ε (StateM σ) β) :
    (step >>= rest).run.run state = (.error error, next) := by
  change (ExceptT.bindCont rest (step.run.run state).1).run (step.run.run state).2 = _
  rw [h]
  rfl

theorem run_liftM (x : Except ε α) (state : σ) :
    (liftM x : ExceptT ε (StateM σ) α).run.run state = (x, state) := by
  cases x with
  | error error => rfl
  | ok a => rfl

end StreamQuery
