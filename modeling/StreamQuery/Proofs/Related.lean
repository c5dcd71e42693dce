import Mathlib.Data.List.Forall2

/-! # Lists related element by element -/

namespace StreamQuery

variable {α β γ : Type} {r : α → β → Prop} {as : List α} {bs : List β}

theorem exists_of_mem_left (h : List.Forall₂ r as bs) {a : α} (ha : a ∈ as) : ∃ b ∈ bs, r a b := by
  induction h with
  | nil => cases ha
  | cons hab _ ih =>
      rcases List.mem_cons.mp ha with rfl | ha
      · exact ⟨_, List.mem_cons_self, hab⟩
      · obtain ⟨b, hb, hr⟩ := ih ha
        exact ⟨b, List.mem_cons_of_mem _ hb, hr⟩

theorem exists_of_mem_right (h : List.Forall₂ r as bs) {b : β} (hb : b ∈ bs) : ∃ a ∈ as, r a b :=
  exists_of_mem_left h.flip hb

/-- Elements that are made of others are made of a list of them. -/
theorem exists_map_of_forall₂ {s : α → γ → Prop} {f : γ → β}
    (h : List.Forall₂ (fun a b => ∃ c, b = f c ∧ s a c) as bs) :
    ∃ cs, List.Forall₂ s as cs ∧ bs = cs.map f := by
  induction h with
  | nil => exact ⟨[], .nil, rfl⟩
  | cons hhead _ ih =>
      obtain ⟨c, rfl, hs⟩ := hhead
      obtain ⟨cs, hcs, rfl⟩ := ih
      exact ⟨c :: cs, .cons hs hcs, rfl⟩

/-- What is the same on both sides of related elements is the same of the lists. -/
theorem map_eq_map_of_forall₂ {f : α → γ} {g : β → γ} (h : List.Forall₂ r as bs)
    (hfg : ∀ a ∈ as, ∀ b, r a b → f a = g b) : as.map f = bs.map g := by
  induction h with
  | nil => rfl
  | cons hhead _ ih =>
      obtain ⟨hfirst, hrest⟩ := List.forall_mem_cons.mp hfg
      rw [List.map_cons, List.map_cons, hfirst _ hhead, ih hrest]

end StreamQuery
