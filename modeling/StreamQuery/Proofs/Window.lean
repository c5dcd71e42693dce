import StreamQuery.Proofs.Term
import StreamQuery.Query

/-! # The order of windows

Windows are in a total order that tells them apart, as terms are, so that sorted windows do not depend
on the order in which the windows were declared.
-/

namespace StreamQuery

namespace Window

theorem compare_eq (a b : Window) : compare a b =
    (compare a.id b.id).then ((compare a.stream b.stream).then
      ((compare a.kind.name b.kind.name).then (compare a.terms b.terms))) := rfl

instance : Std.TransOrd Window :=
  inferInstanceAs (Std.TransCmp (compareLex (compareOn id) (compareLex (compareOn stream)
    (compareLex (compareOn (·.kind.name)) (compareOn terms)))))

theorem kind_eq_of_name {a b : WindowKind} (h : a.name = b.name) : a = b := by
  cases a <;> cases b <;> first | rfl | exact absurd h (by decide)

theorem length_terms_of_kind {a b : Frame} (h : a.kind = b.kind) :
    a.terms.length = b.terms.length := by
  cases a <;> cases b <;> first | rfl | cases h

theorem frame_eq_of_kind_of_terms {a b : Frame} (hkind : a.kind = b.kind)
    (hterms : a.terms = b.terms) : a = b := by
  cases a <;> cases b <;> simp_all [Frame.kind, Frame.terms]

/-- The kind of a window and its terms make the window: the kind tells how many terms are in front of
the step. -/
theorem eq_of_kind_of_terms {a b : Window} (hkind : a.kind = b.kind) (hterms : a.terms = b.terms) :
    a = b := by
  obtain ⟨id, stream, frame, step⟩ := a
  obtain ⟨id', stream', frame', step'⟩ := b
  simp only [terms, List.cons.injEq] at hterms
  obtain ⟨rfl, rfl, hrest⟩ := hterms
  obtain ⟨hframe, hstep⟩ := List.append_inj hrest (length_terms_of_kind hkind)
  obtain rfl := frame_eq_of_kind_of_terms hkind hframe
  cases step <;> cases step' <;> simp_all

instance : Std.LawfulEqOrd Window where
  eq_of_compare {a b} h := by
    simp only [compare_eq, Ordering.then_eq_eq] at h
    obtain ⟨-, -, hkind, hterms⟩ := h
    apply eq_of_kind_of_terms
    · exact kind_eq_of_name (Std.LawfulEqOrd.eq_of_compare hkind)
    · exact Std.LawfulEqOrd.eq_of_compare hterms

theorem sorted_perm (windows : List Window) : (sorted windows).Perm windows :=
  List.mergeSort_perm _ _

theorem pairwise_sorted (windows : List Window) :
    (sorted windows).Pairwise fun a b => (compare a b).isLE := by
  have hlinear := isLinearOrder_compare Window
  apply List.pairwise_mergeSort
  · exact hlinear.trans
  · intro a b
    simpa using hlinear.total a b

/-- There is one way to put windows in ascending order. -/
theorem eq_sorted_iff {windows arranged : List Window} : arranged = sorted windows ↔
    arranged.Perm windows ∧ arranged.Pairwise fun a b => (compare a b).isLE := by
  constructor
  · rintro rfl
    exact ⟨sorted_perm windows, pairwise_sorted windows⟩
  · rintro ⟨hperm, hascending⟩
    apply List.Perm.eq_of_pairwise _ hascending (pairwise_sorted windows)
    · exact hperm.trans (sorted_perm windows).symm
    · intro a b _ _
      exact (isLinearOrder_compare Window).antisymm a b

/-- The same windows in another order are sorted in the same way. -/
theorem sorted_eq_of_perm {windows windows' : List Window} (h : windows.Perm windows') :
    sorted windows = sorted windows' :=
  eq_sorted_iff.mpr ⟨(sorted_perm windows).trans h, pairwise_sorted windows⟩

theorem sorted_eq_sorted_iff {windows windows' : List Window} :
    sorted windows = sorted windows' ↔ windows.Perm windows' := by
  refine ⟨fun h => ?_, sorted_eq_of_perm⟩
  have hperm := sorted_perm windows
  rw [h] at hperm
  exact hperm.symm.trans (sorted_perm windows')

/-- Terms and windows are in total orders that call none but equal ones equal. So windows can be put
in ascending order in one way only, in whatever order they come. -/
theorem order_lawful :
    (IsLinearOrder Term fun a b => (compare a b).isLE) ∧
      (∀ a b : Term, compare a b = .eq ↔ a = b) ∧
      (IsLinearOrder Window fun a b => (compare a b).isLE) ∧
      (∀ a b : Window, compare a b = .eq ↔ a = b) ∧
      (∀ windows windows', sorted windows = sorted windows' ↔ windows.Perm windows') ∧
      ∀ windows arranged, arranged = sorted windows ↔
        arranged.Perm windows ∧ arranged.Pairwise fun a b => (compare a b).isLE :=
  ⟨isLinearOrder_compare Term, fun _ _ => Std.LawfulEqOrd.compare_eq_iff_eq,
    isLinearOrder_compare Window, fun _ _ => Std.LawfulEqOrd.compare_eq_iff_eq,
    fun _ _ => sorted_eq_sorted_iff, fun _ _ => eq_sorted_iff⟩

/-- A quote inside a literal is not taken for its end. -/
example : compare (Term.literal (.plain "a\"@en")) (.literal (.tagged "a" "en")) = .gt := by decide

end Window

end StreamQuery
