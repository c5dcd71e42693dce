/-!
# Sorted maps

Finite maps from strings, kept as a list of entries in strictly ascending order of their keys.
Two maps with the same entries are equal, whatever order they were built in.
-/

namespace StreamQuery

variable {α : Type}

/-- Entries with strictly ascending keys. -/
structure SortedMap (α : Type) where
  entries : List (String × α)
  ascending : entries.Pairwise fun a b => a.1 < b.1
  deriving DecidableEq

namespace SortedMap

/-- Puts an entry at its place, in place of an entry with the same key. -/
def insertEntry (key : String) (value : α) : List (String × α) → List (String × α)
  | [] => [(key, value)]
  | entry :: rest =>
    if key < entry.1 then (key, value) :: entry :: rest
    else if key = entry.1 then (key, value) :: rest
    else entry :: insertEntry key value rest

theorem mem_insertEntry {key : String} {value : α} {entries : List (String × α)}
    {entry : String × α} (h : entry ∈ insertEntry key value entries) :
    entry = (key, value) ∨ entry ∈ entries := by
  induction entries with
  | nil => simpa [insertEntry] using h
  | cons head rest ih =>
    unfold insertEntry at h
    split at h
    · simpa using h
    · split at h
      · rcases List.mem_cons.mp h with rfl | h
        · exact .inl rfl
        · exact .inr (List.mem_cons_of_mem _ h)
      · rcases List.mem_cons.mp h with rfl | h
        · exact .inr List.mem_cons_self
        · exact (ih h).imp id (List.mem_cons_of_mem _)

theorem ascending_insertEntry {key : String} {value : α} {entries : List (String × α)}
    (h : entries.Pairwise fun a b => a.1 < b.1) :
    (insertEntry key value entries).Pairwise fun a b => a.1 < b.1 := by
  induction entries with
  | nil => simp [insertEntry]
  | cons head rest ih =>
    obtain ⟨hhead, hrest⟩ := List.pairwise_cons.mp h
    unfold insertEntry
    split
    · next hlt =>
      refine List.pairwise_cons.mpr ⟨fun entry hentry => ?_, h⟩
      rcases List.mem_cons.mp hentry with rfl | hentry
      · exact hlt
      · exact String.lt_trans hlt (hhead entry hentry)
    · next hnot =>
      split
      · next heq =>
        exact List.pairwise_cons.mpr ⟨fun entry hentry => heq ▸ hhead entry hentry, hrest⟩
      · next hne =>
        refine List.pairwise_cons.mpr ⟨fun entry hentry => ?_, ih hrest⟩
        rcases mem_insertEntry hentry with rfl | hentry
        · exact String.not_le.mp fun hle => hne (String.le_antisymm hle (String.not_lt.mp hnot))
        · exact hhead entry hentry

/-- The map without entries. -/
def empty : SortedMap α := ⟨[], List.Pairwise.nil⟩

/-- The value at a key. -/
def get? (map : SortedMap α) (key : String) : Option α :=
  (map.entries.find? (·.1 = key)).map Prod.snd

/-- Whether a key has a value. -/
def contains (map : SortedMap α) (key : String) : Bool := (map.get? key).isSome

/-- Sets the value at a key. -/
def insert (map : SortedMap α) (key : String) (value : α) : SortedMap α :=
  ⟨insertEntry key value map.entries, ascending_insertEntry map.ascending⟩

/-- Forgets the value at a key. -/
def erase (map : SortedMap α) (key : String) : SortedMap α :=
  ⟨map.entries.filter (·.1 ≠ key), map.ascending.filter _⟩

/-- Sets the values of several entries, the last one of a key winning. -/
def insertAll (map : SortedMap α) (entries : List (String × α)) : SortedMap α :=
  entries.foldl (fun map entry => map.insert entry.1 entry.2) map

/-- The map of several entries, the last one of a key winning. -/
def ofList (entries : List (String × α)) : SortedMap α := empty.insertAll entries

/-- The keys in ascending order. -/
def keys (map : SortedMap α) : List String := map.entries.map Prod.fst

/-- How many keys have a value. -/
def size (map : SortedMap α) : Nat := map.entries.length

end SortedMap

/-- Strings in ascending order, each once. -/
def sortedNames (names : List String) : List String :=
  (SortedMap.ofList (names.map fun name => (name, ()))).keys

end StreamQuery
