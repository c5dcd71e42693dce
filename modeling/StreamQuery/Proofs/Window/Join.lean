import StreamQuery.Proofs.Window.Combine

/-! # The join of windows

Windows over a stream are combined one after another, and what is kept so far has lost the terms it
was made from. Still the result is a join: it is there exactly when the windows agree in every slot,
every slot then keeps the widest of the terms that the windows have there, and the order of the
windows does not matter to what the slots measure.

The argument is about what is kept of a list of terms: one more term can be widened into it exactly
when the longer list agrees. This carries over from terms to windows, and from one combination to a
whole run of them.
-/

namespace StreamQuery

theorem Widening.Reaches.antisymm {widening : Widening} {m n : Nat} (h : widening.Reaches m n)
    (h' : widening.Reaches n m) : m = n := by
  cases widening with
  | larger => exact Nat.le_antisymm h h'
  | smaller => exact Nat.le_antisymm h' h

theorem rel_of_eq_none_iff {α β : Type} {r : α → β → Prop} {a? : Option α} {b? : Option β}
    (hnone : a? = none ↔ b? = none) (hsome : ∀ a b, a? = some a → b? = some b → r a b) :
    Option.Rel r a? b? := by
  cases a? with
  | none =>
      rw [hnone.mp rfl]
      exact .none
  | some a =>
      cases b? with
      | none => cases hnone.mpr rfl
      | some b => exact .some (hsome a b rfl rfl)

namespace Scalar

/-- Terms that can be widened into one: all are the same term, or all are bound values. -/
def Agrees (scalar : Scalar) (terms : List Term) : Prop :=
  (∀ a ∈ terms, ∀ b ∈ terms, a = b) ∨ ∀ term ∈ terms, (scalar.value? term).isSome

/-- What is kept of a list of terms: one of them, which reaches at least as far as each of them. -/
structure Keeps (scalar : Scalar) (widening : Widening) (terms : List Term) (kept : Term) : Prop where
  given : kept ∈ terms
  covers : ∀ term ∈ terms, scalar.Covers widening term kept

/-- Terms that measure the same: they are the same term, or have the same value. -/
inductive SameValue (scalar : Scalar) (a : Term) : Term → Prop where
  | same : SameValue scalar a a
  | equal {b : Term} {n : Nat} (ha : scalar.value? a = some n) (hb : scalar.value? b = some n) :
      SameValue scalar a b

variable {scalar : Scalar} {widening : Widening} {minStep : Duration} {stream : Term}
  {field : String} {terms others : List Term} {a b kept kept' term : Term}

theorem exists_readDuration_iff :
    (∃ d, readDuration stream field a = .ok d) ↔ (duration.value? a).isSome := by
  rw [readDuration, value?]
  cases a.duration? with
  | none => simp
  | some result => cases result <;> simp

theorem exists_readCount_iff :
    (∃ n, readCount stream field a = .ok n) ↔ (count.value? a).isSome := by
  rw [readCount, value?]
  cases a.count? <;> simp

theorem exists_compareTerms_iff :
    (∃ ordering, scalar.compareTerms stream field a b = .ok ordering) ↔
      (scalar.value? a).isSome ∧ (scalar.value? b).isSome := by
  have hdone {α : Type} (x : α) : (∃ y, (pure x : Except SerializationError α) = .ok y) ↔ True :=
    iff_of_true ⟨x, rfl⟩ trivial
  cases scalar with
  | duration =>
      refine exists_bind_eq_ok_iff exists_readDuration_iff fun d => ?_
      exact (exists_bind_eq_ok_iff exists_readDuration_iff fun e => hdone _).trans (and_iff_left trivial)
  | count =>
      refine exists_bind_eq_ok_iff exists_readCount_iff fun m => ?_
      exact (exists_bind_eq_ok_iff exists_readCount_iff fun n => hdone _).trans (and_iff_left trivial)

/-- Two terms can be widened into one if they are the same, or both are bound values. -/
theorem exists_widen_iff :
    (∃ c, scalar.widen widening stream field a b = .ok c) ↔
      a = b ∨ (scalar.value? a).isSome ∧ (scalar.value? b).isSome := by
  unfold widen
  split
  · next heq => exact iff_of_true ⟨a, rfl⟩ (.inl heq)
  next hne =>
  rw [or_iff_right hne]
  split
  · next hvariable =>
    refine iff_of_false nofun fun ⟨ha, hb⟩ => ?_
    rcases Bool.or_eq_true_iff.mp hvariable with hvariable | hvariable
    · rw [value?_of_isVariable hvariable] at ha
      cases ha
    · rw [value?_of_isVariable hvariable] at hb
      cases hb
  · refine (exists_bind_eq_ok_iff exists_compareTerms_iff fun ordering => ?_).trans
      (and_iff_left trivial)
    exact iff_of_true ⟨_, rfl⟩ trivial

/-- One of two terms is kept. -/
theorem widen_cases (h : scalar.widen widening stream field a b = .ok kept) :
    kept = a ∨ kept = b := by
  unfold widen at h
  split at h
  · cases h
    exact .inl rfl
  split at h
  · cases h
  obtain ⟨ordering, -, h⟩ := bind_eq_ok_iff.mp h
  cases h
  cases widening with
  | larger => exact (ite_eq_or_eq _ _ _).symm
  | smaller => exact (ite_eq_or_eq _ _ _).symm

theorem Agrees.nil : scalar.Agrees [] := .inl nofun

theorem Agrees.mono (h : scalar.Agrees terms) (hsubset : others ⊆ terms) : scalar.Agrees others :=
  h.imp (fun hsame a ha b hb => hsame a (hsubset ha) b (hsubset hb))
    fun hvalues term hterm => hvalues term (hsubset hterm)

/-- What is kept can be told from the terms: they agree where something is kept of them. -/
theorem Keeps.agrees (h : scalar.Keeps widening terms kept) : scalar.Agrees terms := by
  by_cases hsame : ∀ term ∈ terms, term = kept
  · exact .inl fun a ha b hb => (hsame a ha).trans (hsame b hb).symm
  · -- some term is covered by another one, which then has a value, as all that it covers have
    obtain ⟨term, hterm, hne⟩ : ∃ term ∈ terms, term ≠ kept := by simpa using hsame
    obtain ⟨n, hn⟩ : ∃ n, scalar.value? kept = some n := by
      cases h.covers term hterm with
      | same => exact absurd rfl hne
      | wider _ hkept _ => exact ⟨_, hkept⟩
    refine .inr fun other hother => ?_
    cases h.covers other hother with
    | same => rw [hn]; rfl
    | wider hvalue _ _ => rw [hvalue]; rfl

theorem Keeps.of_mem_iff (h : scalar.Keeps widening terms kept)
    (hterms : ∀ term, term ∈ others ↔ term ∈ terms) : scalar.Keeps widening others kept :=
  ⟨(hterms kept).mpr h.given, fun term hterm => h.covers term ((hterms term).mp hterm)⟩

theorem Keeps.singleton (term : Term) : scalar.Keeps widening [term] term :=
  ⟨List.mem_singleton_self term, List.forall_mem_singleton.mpr .same⟩

/-- Widening what is kept by one more term keeps the widest of the longer list. -/
theorem Keeps.widen (h : scalar.Keeps widening terms kept)
    (hwiden : scalar.widen widening stream field kept term = .ok kept') :
    scalar.Keeps widening (terms ++ [term]) kept' := by
  obtain ⟨hkept, hterm⟩ := widen_covers hwiden
  refine ⟨?_, List.forall_mem_append.mpr ⟨fun other hother => (h.covers other hother).trans hkept,
    List.forall_mem_singleton.mpr hterm⟩⟩
  rcases widen_cases hwiden with rfl | rfl
  · exact List.mem_append_left _ h.given
  · exact List.mem_append_right _ (List.mem_singleton_self _)

/-- One more term can be widened into what is kept where the longer list agrees. -/
theorem Keeps.exists_widen (h : scalar.Keeps widening terms kept)
    (hagrees : scalar.Agrees (terms ++ [term])) :
    ∃ kept', scalar.widen widening stream field kept term = .ok kept' := by
  have hkept : kept ∈ terms ++ [term] := List.mem_append_left _ h.given
  have hterm : term ∈ terms ++ [term] := List.mem_append_right _ (List.mem_singleton_self _)
  refine exists_widen_iff.mpr ?_
  rcases hagrees with hsame | hvalues
  · exact .inl (hsame _ hkept _ hterm)
  · exact .inr ⟨hvalues _ hkept, hvalues _ hterm⟩

/-- What is kept of the same terms measures the same, in whichever order they came. -/
theorem Keeps.sameValue (h : scalar.Keeps widening terms kept)
    (h' : scalar.Keeps widening others kept') (hsubset : terms ⊆ others) (hsubset' : others ⊆ terms) :
    scalar.SameValue kept kept' := by
  cases h'.covers kept (hsubset h.given) with
  | same => exact .same
  | wider hkept hkept' hreach =>
      obtain rfl := hreach.antisymm ((h.covers kept' (hsubset' h'.given)).reaches hkept' hkept)
      exact .equal hkept hkept'

/-! ### Steps -/

/-- The steps that are combined: those that the windows have, and the smallest step where some windows
have a step and some have none. -/
def steps (scalar : Scalar) (minStep : Duration) (windows : List Window) : List Term :=
  windows.filterMap Window.step ++
    if (∃ window ∈ windows, window.step = none) ∧ ∃ window ∈ windows, window.step ≠ none then
      [scalar.smallestStep minStep]
    else []

/-- What is kept of the steps of windows: nothing if none of them has a step, else the smallest. -/
structure KeepsStep (scalar : Scalar) (minStep : Duration) (windows : List Window)
    (step : Option Term) : Prop where
  absent : step = none ↔ ∀ window ∈ windows, window.step = none
  kept : ∀ term, step = some term → scalar.Keeps .smaller (scalar.steps minStep windows) term

variable {windows more : List Window} {step step' : Option Term}

theorem mem_steps_iff :
    term ∈ scalar.steps minStep windows ↔ (∃ window ∈ windows, window.step = some term) ∨
      (∃ window ∈ windows, window.step = none) ∧ (∃ window ∈ windows, window.step ≠ none) ∧
        term = scalar.smallestStep minStep := by
  rw [steps, List.mem_append, List.mem_filterMap]
  refine or_congr_right ?_
  rw [← and_assoc]
  split
  · next hmixed => rw [and_iff_right hmixed, List.mem_singleton]
  · next huniform => exact iff_of_false List.not_mem_nil fun hmixed => huniform hmixed.1

theorem exists_step_of_mem (h : term ∈ scalar.steps minStep windows) :
    ∃ window ∈ windows, window.step ≠ none := by
  rcases mem_steps_iff.mp h with ⟨window, hwindow, hstep⟩ | ⟨-, hstepped, -⟩
  · exact ⟨window, hwindow, hstep ▸ Option.some_ne_none term⟩
  · exact hstepped

theorem steps_subset (h : windows ⊆ more) :
    scalar.steps minStep windows ⊆ scalar.steps minStep more := by
  intro term hterm
  rw [mem_steps_iff] at hterm ⊢
  rcases hterm with ⟨window, hwindow, hstep⟩ | ⟨⟨window, hwindow, hnone⟩, ⟨other, hother, hsome⟩, rfl⟩
  · exact .inl ⟨window, h hwindow, hstep⟩
  · exact .inr ⟨⟨window, h hwindow, hnone⟩, ⟨other, h hother, hsome⟩, rfl⟩

/-- What is kept of the steps can be told from them: they agree. -/
theorem KeepsStep.agrees (h : scalar.KeepsStep minStep windows step) :
    scalar.Agrees (scalar.steps minStep windows) := by
  cases hstep : step with
  | some kept => exact (h.kept kept hstep).agrees
  | none =>
      refine .inl fun a ha => ?_
      obtain ⟨window, hwindow, hstepped⟩ := exists_step_of_mem ha
      exact absurd (h.absent.mp hstep window hwindow) hstepped

theorem KeepsStep.singleton (window : Window) : scalar.KeepsStep minStep [window] window.step where
  absent := by simp
  kept term hstep := by
    refine (Keeps.singleton term).of_mem_iff fun other => ?_
    rw [mem_steps_iff]
    simp [hstep, eq_comm]

theorem mem_steps_concat_iff {next : Window} :
    term ∈ scalar.steps minStep (windows ++ [next]) ↔
      ((∃ window ∈ windows, window.step = some term) ∨ next.step = some term) ∨
        ((∃ window ∈ windows, window.step = none) ∨ next.step = none) ∧
        ((∃ window ∈ windows, window.step ≠ none) ∨ next.step ≠ none) ∧
          term = scalar.smallestStep minStep := by
  have hconcat (p : Window → Prop) :
      (∃ window ∈ windows ++ [next], p window) ↔ (∃ window ∈ windows, p window) ∨ p next := by
    simp [or_and_right, exists_or]
  rw [mem_steps_iff, hconcat, hconcat, hconcat]

/-- The step of one more window either lacks as well, or is one more term to widen what is kept by. -/
theorem KeepsStep.next (h : scalar.KeepsStep minStep windows step) (hne : windows ≠ [])
    (next : Window) :
    step = none ∧ next.step = none ∨ ∃ terms kept term, scalar.Keeps .smaller terms kept ∧
      scalar.widenStep minStep stream step next.step =
        some <$> scalar.widen .smaller stream "step" kept term ∧
      ∀ other, other ∈ scalar.steps minStep (windows ++ [next]) ↔ other ∈ terms ++ [term] := by
  cases hstep : step with
  | none =>
      -- no window so far has a step, so that the smallest one comes with the first that is there
      have hnone := h.absent.mp hstep
      have hlacking : ∃ window ∈ windows, window.step = none := by
        obtain ⟨first, hfirst⟩ := List.exists_mem_of_ne_nil windows hne
        exact ⟨first, hfirst, hnone first hfirst⟩
      cases hnext : next.step with
      | none => exact .inl ⟨rfl, rfl⟩
      | some own =>
          refine .inr ⟨[own], own, scalar.smallestStep minStep, .singleton own, rfl, fun other => ?_⟩
          have hown : ¬ ∃ window ∈ windows, window.step = some other := by
            rintro ⟨window, hwindow, hsome⟩
            cases (hnone window hwindow).symm.trans hsome
          rw [mem_steps_concat_iff, hnext]
          simp [hown, hlacking, eq_comm]
  | some kept =>
      have hkept := h.kept kept hstep
      have hstepped : ∃ window ∈ windows, window.step ≠ none := by
        by_contra hall
        push Not at hall
        cases hstep.symm.trans (h.absent.mpr hall)
      cases hnext : next.step with
      | none =>
          refine .inr ⟨_, kept, scalar.smallestStep minStep, hkept, rfl, fun other => ?_⟩
          rw [List.mem_append, mem_steps_concat_iff, mem_steps_iff, List.mem_singleton, hnext]
          simp only [hstepped, reduceCtorEq, or_false, or_true, true_or, true_and]
          rw [or_assoc, or_iff_right_of_imp And.right]
      | some own =>
          refine .inr ⟨_, kept, own, hkept, rfl, fun other => ?_⟩
          rw [List.mem_append, mem_steps_concat_iff, mem_steps_iff, List.mem_singleton, or_right_comm,
            hnext, Option.some_inj, eq_comm (a := own)]
          simp only [hstepped, reduceCtorEq, or_false, true_or, true_and]

theorem KeepsStep.widenStep {next : Window} (h : scalar.KeepsStep minStep windows step)
    (hne : windows ≠ [])
    (hwiden : scalar.widenStep minStep stream step next.step = .ok step') :
    scalar.KeepsStep minStep (windows ++ [next]) step' := by
  rcases h.next hne next with ⟨hstep, hnext⟩ | ⟨terms, kept, term, hkept, heq, hterms⟩
  · rw [hstep, hnext] at hwiden
    cases hwiden
    refine ⟨iff_of_true rfl ?_, nofun⟩
    exact List.forall_mem_append.mpr ⟨h.absent.mp hstep, List.forall_mem_singleton.mpr hnext⟩
  · rw [heq] at hwiden
    obtain ⟨kept', hkept', rfl⟩ := map_eq_ok_iff.mp hwiden
    have hlonger := (hkept.widen hkept').of_mem_iff hterms
    refine ⟨iff_of_false nofun fun hnone => ?_, fun other hother => ?_⟩
    · obtain ⟨window, hwindow, hstepped⟩ := exists_step_of_mem hlonger.given
      exact hstepped (hnone window hwindow)
    · cases hother
      exact hlonger

theorem KeepsStep.exists_widenStep {next : Window} (h : scalar.KeepsStep minStep windows step)
    (hne : windows ≠ []) (hagrees : scalar.Agrees (scalar.steps minStep (windows ++ [next]))) :
    ∃ step', scalar.widenStep minStep stream step next.step = .ok step' := by
  rcases h.next hne next with ⟨hstep, hnext⟩ | ⟨terms, kept, term, hkept, heq, hterms⟩
  · rw [hstep, hnext]
    exact ⟨none, rfl⟩
  · obtain ⟨kept', hkept'⟩ :=
      hkept.exists_widen (hagrees.mono fun other hother => (hterms other).mpr hother)
    exact ⟨some kept', by rw [heq, hkept']; rfl⟩

end Scalar

/-! ### Slots of frames -/

/-- The slots of the frames of all kinds. -/
inductive FrameSlot where
  | range
  | start
  | stop
  | items
  deriving DecidableEq

namespace FrameSlot

/-- What a slot measures. -/
def scalar : FrameSlot → Scalar
  | items => .count
  | _ => .duration

/-- Which value is kept in a slot. -/
def widening : FrameSlot → Widening
  | stop => .smaller
  | _ => .larger

/-- What a frame has in a slot. -/
def term? : FrameSlot → Frame → Option Term
  | range, .logical term => some term
  | start, .past term _ => some term
  | stop, .past _ term => some term
  | items, .physical term => some term
  | _, _ => none

/-- What the frames of windows have in a slot. -/
def terms (slot : FrameSlot) (windows : List Window) : List Term :=
  windows.filterMap fun window => slot.term? window.frame

theorem terms_singleton {slot : FrameSlot} {window : Window} {term : Term}
    (h : slot.term? window.frame = some term) : slot.terms [window] = [term] := by
  simp [terms, h]

theorem terms_append (slot : FrameSlot) (windows others : List Window) :
    slot.terms (windows ++ others) = slot.terms windows ++ slot.terms others :=
  List.filterMap_append

theorem terms_subset {windows others : List Window} (h : windows ⊆ others) (slot : FrameSlot) :
    slot.terms windows ⊆ slot.terms others := List.filterMap_subset _ h

/-- Frames of one kind have the same slots. -/
theorem term?_eq_none_iff (slot : FrameSlot) {frame frame' : Frame} (h : frame.kind = frame'.kind) :
    slot.term? frame = none ↔ slot.term? frame' = none := by
  cases frame <;> cases frame' <;> cases h <;> cases slot <;> simp [term?]

end FrameSlot

/-! ### Joins of windows -/

namespace Window

open FrameSlot

variable {minStep : Duration} {stream : Term} {frame frame' combined : Frame} {slot : FrameSlot}
  {kind : WindowKind} {windows others rest : List Window} {next joint joint' : Window} {term : Term}

theorem exists_of_combineFrames (h : combineFrames stream frame frame' = .ok combined) :
    frame'.kind = frame.kind ∧ combined.kind = frame.kind ∧
      ∀ slot kept, term? slot combined = some kept →
        ∃ a b field, slot.term? frame = some a ∧ slot.term? frame' = some b ∧
          slot.scalar.widen slot.widening stream field a b = .ok kept := by
  unfold combineFrames at h
  split at h
  · obtain ⟨range, hrange, rfl⟩ := map_eq_ok_iff.mp h
    refine ⟨rfl, rfl, fun slot kept hkept => ?_⟩
    cases slot <;> cases hkept
    exact ⟨_, _, _, rfl, rfl, hrange⟩
  · obtain ⟨items, hitems, rfl⟩ := map_eq_ok_iff.mp h
    refine ⟨rfl, rfl, fun slot kept hkept => ?_⟩
    cases slot <;> cases hkept
    exact ⟨_, _, _, rfl, rfl, hitems⟩
  · obtain ⟨start, hstart, h⟩ := bind_eq_ok_iff.mp h
    obtain ⟨stop, hstop, h⟩ := bind_eq_ok_iff.mp h
    cases h
    refine ⟨rfl, rfl, fun slot kept hkept => ?_⟩
    cases slot <;> cases hkept
    · exact ⟨_, _, _, rfl, rfl, hstart⟩
    · exact ⟨_, _, _, rfl, rfl, hstop⟩
  · cases h

theorem exists_combineFrames (hkind : frame'.kind = frame.kind)
    (hslots : ∀ (slot : FrameSlot) a b field, slot.term? frame = some a → slot.term? frame' = some b →
      ∃ kept, slot.scalar.widen slot.widening stream field a b = .ok kept) :
    ∃ combined, combineFrames stream frame frame' = .ok combined := by
  cases frame <;> cases frame' <;> cases hkind
  case logical.logical r s =>
    obtain ⟨range, hrange⟩ := hslots .range r s "range" rfl rfl
    exact ⟨.logical range, map_eq_ok_iff.mpr ⟨range, hrange, rfl⟩⟩
  case past.past start stop start' stop' =>
    obtain ⟨first, hfirst⟩ := hslots .start start start' "from" rfl rfl
    obtain ⟨last, hlast⟩ := hslots .stop stop stop' "to" rfl rfl
    exact ⟨.past first last, bind_eq_ok_iff.mpr ⟨first, hfirst,
      bind_eq_ok_iff.mpr ⟨last, hlast, rfl⟩⟩⟩
  case physical.physical m n =>
    obtain ⟨items, hitems⟩ := hslots .items m n "item count" rfl rfl
    exact ⟨.physical items, map_eq_ok_iff.mpr ⟨items, hitems, rfl⟩⟩

/-- Windows that can be combined: they are of one kind, and agree in every slot and in their steps. -/
structure Combinable (minStep : Duration) (kind : WindowKind) (windows : List Window) : Prop where
  kinds : ∀ window ∈ windows, window.kind = kind
  slots : ∀ slot : FrameSlot, slot.scalar.Agrees (slot.terms windows)
  steps : (scalarOfKind kind).Agrees ((scalarOfKind kind).steps minStep windows)

/-- The join of windows: a window with the names of the first of them, of the kind that all of them
have, that keeps the widest terms of every slot and the smallest of the steps. -/
structure Joins (minStep : Duration) (windows : List Window) (joint : Window) : Prop where
  id : (windows.map Window.id).head? = some joint.id
  stream : (windows.map Window.stream).head? = some joint.stream
  kind : ∀ window ∈ windows, window.kind = joint.kind
  frame : ∀ (slot : FrameSlot) kept, slot.term? joint.frame = some kept →
    slot.scalar.Keeps slot.widening (slot.terms windows) kept
  step : (scalarOfKind joint.kind).KeepsStep minStep windows joint.step

/-- Windows of one kind whose slots and steps measure the same. -/
structure SameExtent (a b : Window) : Prop where
  kind : b.kind = a.kind
  frame : ∀ slot : FrameSlot,
    Option.Rel slot.scalar.SameValue (slot.term? a.frame) (slot.term? b.frame)
  step : Option.Rel (scalarOfKind a.kind).SameValue a.step b.step

theorem Combinable.mono (h : Combinable minStep kind others) (hsubset : windows ⊆ others) :
    Combinable minStep kind windows where
  kinds window hwindow := h.kinds window (hsubset hwindow)
  slots slot := (h.slots slot).mono (terms_subset hsubset slot)
  steps := h.steps.mono (Scalar.steps_subset hsubset)

theorem Joins.ne_nil (h : Joins minStep windows joint) : windows ≠ [] := by
  rintro rfl
  cases h.id

theorem Joins.singleton (window : Window) : Joins minStep [window] window where
  id := rfl
  stream := rfl
  kind := List.forall_mem_singleton.mpr rfl
  frame slot kept hkept := by
    rw [terms_singleton hkept]
    exact .singleton kept
  step := .singleton window

/-- Windows that have a join can be combined. -/
theorem Joins.combinable (h : Joins minStep windows joint) :
    Combinable minStep joint.kind windows where
  kinds := h.kind
  slots slot := by
    cases hkept : slot.term? joint.frame with
    | some kept => exact (h.frame slot kept hkept).agrees
    | none =>
        -- no window has such a slot
        have hnil : slot.terms windows = [] := List.filterMap_eq_nil_iff.mpr fun window hwindow =>
          (slot.term?_eq_none_iff (h.kind window hwindow)).mpr hkept
        exact hnil ▸ .nil
  steps := h.step.agrees

/-- Combining with one more window goes from the join of windows to the join of the longer list. -/
theorem Joins.combine (h : Joins minStep windows joint)
    (hcombine : combine minStep joint next = .ok joint') :
    Joins minStep (windows ++ [next]) joint' := by
  unfold Window.combine at hcombine
  obtain ⟨frame, hframe, hcombine⟩ := bind_eq_ok_iff.mp hcombine
  obtain ⟨step, hstep, hcombine⟩ := bind_eq_ok_iff.mp hcombine
  cases hcombine
  obtain ⟨hnext, hkind, hslots⟩ := exists_of_combineFrames hframe
  refine ⟨?_, ?_, ?_, ?_, ?_⟩
  · rw [List.map_append, List.head?_append, h.id, Option.some_or]
  · rw [List.map_append, List.head?_append, h.stream, Option.some_or]
  · refine List.forall_mem_append.mpr ⟨fun window hwindow => ?_, List.forall_mem_singleton.mpr ?_⟩
    · exact (h.kind window hwindow).trans hkind.symm
    · exact hnext.trans hkind.symm
  · intro slot kept hkept
    obtain ⟨a, b, field, ha, hb, hwiden⟩ := hslots slot kept hkept
    rw [slot.terms_append, terms_singleton hb]
    exact (h.frame slot a ha).widen hwiden
  · change (scalarOfKind frame.kind).KeepsStep minStep (windows ++ [next]) step
    rw [hkind]
    exact h.step.widenStep h.ne_nil hstep

/-- One more window can be combined with a join where the longer list can be combined. -/
theorem Joins.exists_combine (h : Joins minStep windows joint)
    (hcombinable : Combinable minStep joint.kind (windows ++ [next])) :
    ∃ joint', Window.combine minStep joint next = .ok joint' := by
  have hkind : next.kind = joint.kind :=
    hcombinable.kinds next (List.mem_append_right _ (List.mem_singleton_self _))
  obtain ⟨frame, hframe⟩ : ∃ frame, combineFrames joint.stream joint.frame next.frame = .ok frame := by
    refine exists_combineFrames hkind fun slot a b field ha hb => ?_
    have hagrees := hcombinable.slots slot
    rw [slot.terms_append, terms_singleton hb] at hagrees
    exact (h.frame slot a ha).exists_widen hagrees
  obtain ⟨step, hstep⟩ : ∃ step, (scalarOfKind joint.kind).widenStep minStep joint.stream joint.step
      next.step = .ok step := h.step.exists_widenStep h.ne_nil hcombinable.steps
  exact ⟨_, bind_eq_ok_iff.mpr ⟨frame, hframe, bind_eq_ok_iff.mpr ⟨step, hstep, rfl⟩⟩⟩

theorem Joins.foldlM (h : Joins minStep windows joint)
    (hfold : rest.foldlM (Window.combine minStep) joint = .ok joint') :
    Joins minStep (windows ++ rest) joint' := by
  -- the windows that are combined so far grow by one at each step
  induction rest generalizing windows joint with
  | nil =>
      cases hfold
      rw [List.append_nil]
      exact h
  | cons next rest ih =>
      obtain ⟨between, hbetween, hrest⟩ := bind_eq_ok_iff.mp hfold
      rw [List.append_cons]
      exact ih (h.combine hbetween) hrest

theorem Joins.exists_foldlM (h : Joins minStep windows joint)
    (hcombinable : Combinable minStep joint.kind (windows ++ rest)) :
    ∃ joint', rest.foldlM (Window.combine minStep) joint = .ok joint' := by
  induction rest generalizing windows joint with
  | nil => exact ⟨joint, rfl⟩
  | cons next rest ih =>
      rw [List.append_cons] at hcombinable
      obtain ⟨between, hbetween⟩ :=
        h.exists_combine (hcombinable.mono (List.subset_append_left _ _))
      have hjoins := h.combine hbetween
      have hkind : between.kind = joint.kind := by
        obtain ⟨window, hwindow⟩ := List.exists_mem_of_ne_nil windows h.ne_nil
        exact (hjoins.kind window (List.mem_append_left _ hwindow)).symm.trans (h.kind window hwindow)
      obtain ⟨joint', hjoint'⟩ := ih hjoins (hkind ▸ hcombinable)
      exact ⟨joint', bind_eq_ok_iff.mpr ⟨between, hbetween, hjoint'⟩⟩

/-- Joins of the same windows have the same extent, in whichever order the windows came. -/
theorem Joins.sameExtent (h : Joins minStep windows joint) (h' : Joins minStep others joint')
    (hperm : others.Perm windows) : joint'.SameExtent joint := by
  obtain ⟨window, hwindow⟩ := List.exists_mem_of_ne_nil windows h.ne_nil
  have hkind : joint.kind = joint'.kind :=
    (h.kind window hwindow).symm.trans (h'.kind window (hperm.mem_iff.mpr hwindow))
  refine ⟨hkind, fun slot => rel_of_eq_none_iff ?_ ?_, rel_of_eq_none_iff ?_ ?_⟩
  · exact slot.term?_eq_none_iff hkind.symm
  · intro kept' kept hkept' hkept
    exact (h'.frame slot kept' hkept').sameValue (h.frame slot kept hkept)
      (terms_subset hperm.subset slot) (terms_subset hperm.symm.subset slot)
  · rw [h.step.absent, h'.step.absent]
    simp only [hperm.mem_iff]
  · intro kept' kept hkept' hkept
    have hsteps := h.step.kept kept hkept
    rw [hkind] at hsteps
    exact (h'.step.kept kept' hkept').sameValue hsteps
      (Scalar.steps_subset hperm.subset) (Scalar.steps_subset hperm.symm.subset)

theorem exists_combineAll_iff (first : Window) (rest : List Window) :
    (∃ joint, combineAll minStep (first :: rest) = .ok joint) ↔
      Combinable minStep first.kind (first :: rest) := by
  constructor
  · rintro ⟨joint, hjoint⟩
    have hjoins := (Joins.singleton first).foldlM hjoint
    rw [hjoins.kind first List.mem_cons_self]
    exact hjoins.combinable
  · exact (Joins.singleton first).exists_foldlM

/-- The windows of a list can be combined exactly when they are of one kind and agree in every slot and
in their steps. The result is their join, and the windows combine to the same extent in any order. -/
theorem combineAll_join (minStep : Duration) (first : Window) (rest : List Window) :
    ((∃ joint, combineAll minStep (first :: rest) = .ok joint) ↔
        Combinable minStep first.kind (first :: rest)) ∧
      ∀ joint, combineAll minStep (first :: rest) = .ok joint →
        Joins minStep (first :: rest) joint ∧
          ∀ others : List Window, others.Perm (first :: rest) →
            ∃ joint', combineAll minStep others = .ok joint' ∧ joint'.SameExtent joint := by
  refine ⟨exists_combineAll_iff first rest, fun joint hjoint => ?_⟩
  have hjoins := (Joins.singleton first).foldlM hjoint
  refine ⟨hjoins, fun others hperm => ?_⟩
  cases others with
  | nil => cases hperm.symm.eq_nil
  | cons first' rest' =>
      have hkind : first'.kind = joint.kind := hjoins.kind first' (hperm.mem_iff.mp List.mem_cons_self)
      have hcombinable : Combinable minStep first'.kind (first' :: rest') :=
        hkind ▸ hjoins.combinable.mono hperm.subset
      obtain ⟨joint', hjoint'⟩ := (exists_combineAll_iff first' rest').mpr hcombinable
      exact ⟨joint', hjoint', hjoins.sameExtent ((Joins.singleton first').foldlM hjoint') hperm⟩

end Window

end StreamQuery
