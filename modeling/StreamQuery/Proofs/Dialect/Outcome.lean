import StreamQuery.Proofs.Dialect.Agreement
import StreamQuery.Proofs.Except
import StreamQuery.Proofs.Related

/-! # Outcomes of projections

What a computation succeeds with, and when it succeeds. Both are said of every list of warnings so far,
and both are kept by everything that projections are composed of.
-/

namespace StreamQuery

variable {α β : Type}

namespace Projecting

/-- Whatever a computation succeeds with has a property. -/
def Ensures (x : Projecting α) (property : α → Prop) : Prop :=
  ∀ warnings a warnings', x.run warnings = .ok (a, warnings') → property a

/-- A computation succeeds exactly under a condition. -/
def SucceedsIff (x : Projecting α) (condition : Prop) : Prop :=
  ∀ warnings, (∃ result, x.run warnings = .ok result) ↔ condition

namespace Ensures

variable {x : Projecting α} {f : α → Projecting β} {p q : α → Prop} {r : β → Prop}

theorem mono (h : Ensures x p) (hpq : ∀ a, p a → q a) : Ensures x q :=
  fun warnings a warnings' hrun => hpq a (h warnings a warnings' hrun)

theorem pure {a : α} (h : p a) : Ensures (Pure.pure a) p := by
  intro warnings b warnings' hrun
  cases hrun
  exact h

theorem throw (e : SerializationError) : Ensures (throw e) p := by
  intro warnings a warnings' hrun
  cases hrun

theorem bind (hx : Ensures x p) (hf : ∀ a, p a → Ensures (f a) r) : Ensures (x >>= f) r := by
  intro warnings b warnings' hrun
  obtain ⟨a, between, hfirst, hsecond⟩ := run_bind_eq_ok.mp hrun
  exact hf a (hx _ _ _ hfirst) _ _ _ hsecond

/-- What is known of the second computation alone. -/
theorem bind_right (hf : ∀ a, Ensures (f a) r) : Ensures (x >>= f) r :=
  bind (p := fun _ => True) (fun _ _ _ _ => trivial) fun a _ => hf a

theorem lose_bind (e : SerializationError) (message : String) (f : Unit → Projecting β) :
    Ensures (Projecting.lose true e message >>= f) r := by
  intro warnings b warnings' hrun
  cases hrun

theorem liftM (x : Except SerializationError α) :
    Ensures (liftM x : Projecting α) fun a => x = .ok a := by
  intro warnings a warnings' hrun
  cases x with
  | error e => cases hrun
  | ok b =>
      cases hrun
      rfl

theorem mapM_of_mem {f : α → Projecting β} {r : α → β → Prop} {as : List α}
    (hf : ∀ a ∈ as, Ensures (f a) (r a)) : Ensures (as.mapM f) (List.Forall₂ r as) := by
  induction as with
  | nil => exact .pure .nil
  | cons a as ih =>
      obtain ⟨ha, has⟩ := List.forall_mem_cons.mp hf
      rw [List.mapM_cons]
      exact ha.bind fun b hb => (ih has).bind fun bs hbs => .pure (.cons hb hbs)

theorem mapM {f : α → Projecting β} {r : α → β → Prop} (hf : ∀ a, Ensures (f a) (r a))
    (as : List α) : Ensures (as.mapM f) (List.Forall₂ r as) :=
  mapM_of_mem fun a _ => hf a

end Ensures

namespace SucceedsIff

variable {x : Projecting α} {f : α → Projecting β} {p : α → Prop} {c d : Prop}

theorem pure (a : α) : SucceedsIff (Pure.pure a : Projecting α) True :=
  fun _ => iff_of_true ⟨_, rfl⟩ trivial

theorem throw (e : SerializationError) : SucceedsIff (throw e : Projecting α) False :=
  fun _ => iff_of_false nofun not_false

theorem liftM (x : Except SerializationError α) :
    SucceedsIff (liftM x : Projecting α) (∃ a, x = .ok a) := by
  intro warnings
  cases x with
  | error e => exact iff_of_false nofun nofun
  | ok a => exact iff_of_true ⟨_, rfl⟩ ⟨a, rfl⟩

theorem lose (e : SerializationError) (message : String) :
    SucceedsIff (Projecting.lose true e message) False := .throw e

/-- A loss ends a strict computation, whatever would have come next. -/
theorem lose_bind (e : SerializationError) (message : String) (f : Unit → Projecting β) :
    SucceedsIff (Projecting.lose true e message >>= f) False :=
  fun _ => iff_of_false nofun not_false

theorem warn (message : String) : SucceedsIff (warn message) True :=
  fun _ => iff_of_true ⟨_, rfl⟩ trivial

theorem congr (h : SucceedsIff x c) (hcd : c ↔ d) : SucceedsIff x d :=
  fun warnings => (h warnings).trans hcd

/-- A sequence succeeds if both steps do; the second one starts from what the first one ensures. -/
theorem bind (hx : SucceedsIff x c) (hp : Ensures x p) (hf : ∀ a, p a → SucceedsIff (f a) d) :
    SucceedsIff (x >>= f) (c ∧ d) := by
  intro warnings
  constructor
  · rintro ⟨result, hrun⟩
    obtain ⟨a, between, hfirst, hsecond⟩ := run_bind_eq_ok.mp hrun
    exact ⟨(hx warnings).mp ⟨_, hfirst⟩, (hf a (hp _ _ _ hfirst) between).mp ⟨_, hsecond⟩⟩
  · rintro ⟨hc, hd⟩
    obtain ⟨⟨a, between⟩, hfirst⟩ := (hx warnings).mpr hc
    obtain ⟨result, hsecond⟩ := (hf a (hp _ _ _ hfirst) between).mpr hd
    exact ⟨result, run_bind_eq_ok.mpr ⟨a, between, hfirst, hsecond⟩⟩

theorem bind_known {a : α} (hx : SucceedsIff x c) (ha : Ensures x (a = ·))
    (hf : SucceedsIff (f a) d) : SucceedsIff (x >>= f) (c ∧ d) := by
  refine hx.bind ha fun b hb => ?_
  rw [← hb]
  exact hf

theorem bind_of_all (hx : SucceedsIff x c) (hf : ∀ a, SucceedsIff (f a) d) :
    SucceedsIff (x >>= f) (c ∧ d) :=
  hx.bind (p := fun _ => True) (fun _ _ _ _ => trivial) fun a _ => hf a

theorem bind_true (hx : SucceedsIff x c) (hf : ∀ a, SucceedsIff (f a) True) :
    SucceedsIff (x >>= f) c :=
  (bind_of_all hx hf).congr (and_iff_left trivial)

theorem mapM {f : α → Projecting β} {c : α → Prop} {as : List α}
    (hf : ∀ a ∈ as, SucceedsIff (f a) (c a)) : SucceedsIff (as.mapM f) (∀ a ∈ as, c a) := by
  induction as with
  | nil => exact (pure []).congr (by simp)
  | cons a as ih =>
      obtain ⟨ha, has⟩ := List.forall_mem_cons.mp hf
      rw [List.mapM_cons]
      refine (bind_of_all ha fun b => (ih has).bind_true fun bs => pure (b :: bs)).congr ?_
      exact List.forall_mem_cons.symm

/-- The same elements in another order succeed as well. -/
theorem mapM_of_perm {f : α → Projecting β} {c : α → Prop} {as bs : List α} (h : as.Perm bs)
    (hf : ∀ a, SucceedsIff (f a) (c a)) : SucceedsIff (as.mapM f) (∀ b ∈ bs, c b) :=
  (mapM fun a _ => hf a).congr (forall_congr' fun _ => imp_congr_left h.mem_iff)

theorem forM {f : α → Projecting Unit} {c : α → Prop} {as : List α}
    (hf : ∀ a ∈ as, SucceedsIff (f a) (c a)) : SucceedsIff (as.forM f) (∀ a ∈ as, c a) := by
  induction as with
  | nil => exact (pure ()).congr (by simp)
  | cons a as ih =>
      obtain ⟨ha, has⟩ := List.forall_mem_cons.mp hf
      exact (bind_of_all ha fun _ => ih has).congr List.forall_mem_cons.symm

/-- A projection is written exactly if its computation succeeds. -/
theorem outcome {x : Projecting String} (h : SucceedsIff x c) :
    (∃ projection, x.outcome = .ok projection) ↔ c := by
  rw [← h []]
  constructor
  · rintro ⟨projection, hprojection⟩
    obtain ⟨result, hrun, -⟩ := outcome_eq_ok.mp hprojection
    exact ⟨result, hrun⟩
  · rintro ⟨result, hrun⟩
    exact ⟨_, outcome_eq_ok.mpr ⟨result, hrun, rfl⟩⟩

end SucceedsIff

end Projecting

end StreamQuery
