import StreamQuery.SortedMap

/-! # Entries of sorted maps

A map holds one value for each key, and is rebuilt from its entries in their order.
-/

namespace StreamQuery

namespace SortedMap

variable {α : Type}

theorem ext_entries {a b : SortedMap α} (h : a.entries = b.entries) : a = b := by
  cases a
  cases b
  cases h
  rfl

theorem get?_of_mem {map : SortedMap α} {key : String} {value : α}
    (h : (key, value) ∈ map.entries) : map.get? key = some value := by
  obtain ⟨entries, hascending⟩ := map
  unfold get?
  dsimp only at h ⊢
  induction entries with
  | nil => cases h
  | cons head rest ih =>
      obtain ⟨hhead, hrest⟩ := List.pairwise_cons.mp hascending
      rcases List.mem_cons.mp h with rfl | h
      · simp
      · have hne : head.1 ≠ key := fun heq => by
          have hlt := hhead _ h
          rw [heq] at hlt
          exact String.lt_irrefl _ hlt
        rw [List.find?_cons_of_neg (by simpa using hne)]
        exact ih hrest h

theorem mem_of_get? {map : SortedMap α} {key : String} {value : α}
    (h : map.get? key = some value) : (key, value) ∈ map.entries := by
  obtain ⟨entry, hfind, rfl⟩ := Option.map_eq_some_iff.mp h
  have hkey : entry.1 = key := by simpa using List.find?_some hfind
  rw [← hkey]
  exact List.mem_of_find?_eq_some hfind

theorem insertEntry_of_lt {key : String} {value : α} {entries : List (String × α)}
    (h : ∀ entry ∈ entries, entry.1 < key) :
    insertEntry key value entries = entries ++ [(key, value)] := by
  induction entries with
  | nil => rfl
  | cons head rest ih =>
      have hhead := h head List.mem_cons_self
      have hnot : ¬ key < head.1 := fun hlt => String.lt_irrefl _ (String.lt_trans hhead hlt)
      have hne : key ≠ head.1 := fun heq => String.lt_irrefl _ (heq ▸ hhead)
      rw [insertEntry, if_neg hnot, if_neg hne, ih fun entry hentry =>
        h entry (List.mem_cons_of_mem _ hentry)]
      rfl

/-- Entries in ascending order are added behind those of a map with smaller keys. -/
theorem insertAll_of_ascending (map : SortedMap α) {entries : List (String × α)}
    (h : (map.entries ++ entries).Pairwise fun a b => a.1 < b.1) :
    (map.insertAll entries).entries = map.entries ++ entries := by
  induction entries generalizing map with
  | nil => exact (List.append_nil _).symm
  | cons entry rest ih =>
      have hlt : ∀ before ∈ map.entries, before.1 < entry.1 := fun before hbefore =>
        (List.pairwise_append.mp h).2.2 before hbefore entry List.mem_cons_self
      have hentries : (map.insert entry.1 entry.2).entries = map.entries ++ [entry] :=
        insertEntry_of_lt hlt
      rw [insertAll, List.foldl_cons]
      have hinsert := ih (map.insert entry.1 entry.2)
      rw [hentries, List.append_assoc, List.singleton_append] at hinsert
      exact hinsert h

theorem insertAll_entries (map : SortedMap α) : empty.insertAll map.entries = map :=
  ext_entries (insertAll_of_ascending empty map.ascending)

theorem mem_insertEntry_iff {key : String} {value : α} {entries : List (String × α)}
    (h : entries.Pairwise fun a b => a.1 < b.1) (entry : String × α) :
    entry ∈ insertEntry key value entries ↔
      entry = (key, value) ∨ entry ∈ entries ∧ entry.1 ≠ key := by
  induction entries with
  | nil => simp [insertEntry]
  | cons head rest ih =>
      obtain ⟨hhead, hrest⟩ := List.pairwise_cons.mp h
      unfold insertEntry
      split
      · next hlt =>
        -- every key behind the new one is larger
        have hne : entry ∈ head :: rest → entry.1 ≠ key := by
          intro hentry heq
          rcases List.mem_cons.mp hentry with rfl | hentry
          · exact String.lt_irrefl _ (heq ▸ hlt)
          · exact String.lt_irrefl _ (heq ▸ String.lt_trans hlt (hhead entry hentry))
        rw [List.mem_cons]
        exact ⟨Or.imp_right fun hentry => ⟨hentry, hne hentry⟩, Or.imp_right And.left⟩
      · split
        · next heq =>
          have hne : entry ∈ rest → entry.1 ≠ key := fun hentry hkey =>
            String.lt_irrefl _ ((hkey.trans heq) ▸ hhead entry hentry)
          rw [List.mem_cons, List.mem_cons]
          constructor
          · exact Or.imp_right fun hentry => ⟨.inr hentry, hne hentry⟩
          · rintro (hnew | ⟨rfl | hentry, hkey⟩)
            · exact .inl hnew
            · exact absurd heq.symm hkey
            · exact .inr hentry
        · next hkey =>
          rw [List.mem_cons, ih hrest, List.mem_cons]
          constructor
          · rintro (rfl | hnew | ⟨hentry, hne⟩)
            · exact .inr ⟨.inl rfl, fun heq => hkey heq.symm⟩
            · exact .inl hnew
            · exact .inr ⟨.inr hentry, hne⟩
          · rintro (hnew | ⟨rfl | hentry, hne⟩)
            · exact .inr (.inl hnew)
            · exact .inl rfl
            · exact .inr (.inr ⟨hentry, hne⟩)

theorem get?_eq_some_iff {map : SortedMap α} {key : String} {value : α} :
    map.get? key = some value ↔ (key, value) ∈ map.entries :=
  ⟨mem_of_get?, get?_of_mem⟩

/-- A map holds a value that is set, and holds all other keys as before. -/
theorem get?_insert_eq_some_iff {map : SortedMap α} {key key' : String} {value value' : α} :
    (map.insert key value).get? key' = some value' ↔
      key' = key ∧ value' = value ∨ map.get? key' = some value' ∧ key' ≠ key := by
  rw [get?_eq_some_iff, get?_eq_some_iff]
  exact (mem_insertEntry_iff map.ascending (key', value')).trans (by rw [Prod.mk.injEq])

theorem get?_insert (map : SortedMap α) (key key' : String) (value : α) :
    (map.insert key value).get? key' = if key' = key then some value else map.get? key' := by
  ext value'
  rw [get?_insert_eq_some_iff]
  split
  · next heq => simp [heq, eq_comm]
  · next hne => simp [hne]

theorem get?_erase (map : SortedMap α) (key key' : String) :
    (map.erase key).get? key' = if key' = key then none else map.get? key' := by
  ext value
  rw [get?_eq_some_iff, erase, List.mem_filter, decide_eq_true_eq]
  split
  · next heq => simp [heq]
  · next hne => simp [hne, get?_eq_some_iff]

theorem mem_keys_iff {map : SortedMap α} {key : String} :
    key ∈ map.keys ↔ ∃ value, map.get? key = some value := by
  simp [keys, get?_eq_some_iff]

theorem mem_keys_insert {map : SortedMap α} {key key' : String} {value : α} :
    key' ∈ (map.insert key value).keys ↔ key' = key ∨ key' ∈ map.keys := by
  simp only [mem_keys_iff, get?_insert_eq_some_iff]
  by_cases heq : key' = key
  · simp [heq]
  · simp [heq]

theorem mem_keys_insertAll {map : SortedMap α} {entries : List (String × α)} {key : String} :
    key ∈ (map.insertAll entries).keys ↔ key ∈ map.keys ∨ key ∈ entries.map Prod.fst := by
  induction entries generalizing map with
  | nil => simp [insertAll]
  | cons entry rest ih =>
      rw [insertAll, List.foldl_cons, ← insertAll, ih, mem_keys_insert, List.map_cons,
        List.mem_cons, or_assoc, or_left_comm]

theorem nodup_keys (map : SortedMap α) : map.keys.Nodup := by
  apply List.pairwise_map.mpr
  apply map.ascending.imp
  intro a b hlt heq
  exact String.lt_irrefl _ (heq ▸ hlt)

/-- Maps with the same keys have them in the same order. -/
theorem keys_eq_of_mem_iff {β : Type} {a : SortedMap α} {b : SortedMap β}
    (h : ∀ key, key ∈ a.keys ↔ key ∈ b.keys) : a.keys = b.keys := by
  have hperm := (List.perm_ext_iff_of_nodup a.nodup_keys b.nodup_keys).mpr h
  apply List.Perm.eq_of_pairwise _ (List.pairwise_map.mpr a.ascending) (List.pairwise_map.mpr b.ascending)
    hperm
  intro key key' _ _ hlt hgt
  exact absurd (String.lt_trans hlt hgt) (String.lt_irrefl _)

end SortedMap

/-- Sorted names are the names. -/
theorem mem_sortedNames {names : List String} {name : String} :
    name ∈ sortedNames names ↔ name ∈ names := by
  rw [sortedNames, SortedMap.ofList, SortedMap.mem_keys_insertAll]
  simp [SortedMap.keys, SortedMap.empty]

theorem nodup_sortedNames (names : List String) : (sortedNames names).Nodup :=
  SortedMap.nodup_keys _

theorem sortedNames_eq_of_mem_iff {names names' : List String} (h : ∀ name, name ∈ names ↔ name ∈ names') :
    sortedNames names = sortedNames names' := by
  refine SortedMap.keys_eq_of_mem_iff fun name => ?_
  exact mem_sortedNames.trans ((h name).trans mem_sortedNames.symm)

end StreamQuery
