import Mathlib.Data.List.Induction
import StreamQuery.Proofs.SortedMap
import StreamQuery.Proofs.Token.Lexical
import StreamQuery.Prefixes

/-! # Abbreviated names

An IRI is abbreviated by the longest namespace that it begins with. The abbreviation expands to the
IRI that it stands for, and is a single token.
-/

namespace StreamQuery

open Text Lexeme

namespace PrefixMapping

variable {mapping : PrefixMapping} {iri name label space : String} {part : List Char}

/-- A label that no colon is in and that is not that of blank nodes. -/
def IsPlainLabel (label : String) : Prop := ':' ∉ label.toList ∧ label ≠ "_"

instance : DecidablePred IsPlainLabel := fun _ => inferInstanceAs (Decidable (_ ∧ _))

/-! ## The longest namespace -/

section Longest

variable {found : List (String × String × List Char)} {entry : String × String × List Char}

theorem longest_concat (found : List (String × String × List Char))
    (entry : String × String × List Char) : longest (found ++ [entry]) =
      match longest found with
      | some kept => if entry.2.1.length < kept.2.1.length then some kept else some entry
      | none => some entry := by
  rw [longest, List.foldl_append]
  rfl

theorem longest_eq_none_iff : longest found = none ↔ found = [] := by
  induction found using List.reverseRecOn with
  | nil => simp [longest]
  | append_singleton found entry _ =>
      rw [longest_concat]
      split
      · split <;> simp
      · simp

/-- Nothing in front of the entry that is taken is longer, and all that is behind it is shorter. -/
theorem exists_of_longest (h : longest found = some entry) :
    ∃ before after, found = before ++ entry :: after ∧
      (∀ other ∈ before, other.2.1.length ≤ entry.2.1.length) ∧
        ∀ other ∈ after, other.2.1.length < entry.2.1.length := by
  -- what is taken so far is kept or gives way to the next entry, so the last one is looked at first
  induction found using List.reverseRecOn generalizing entry with
  | nil => cases h
  | append_singleton found next ih =>
      rw [longest_concat] at h
      split at h
      · next kept hkept =>
        obtain ⟨before, after, hfound, hbefore, hafter⟩ := ih hkept
        split at h
        · next hshorter =>
          cases h
          refine ⟨before, after ++ [next], by simp [hfound], hbefore, ?_⟩
          intro other hother
          rcases List.mem_append.mp hother with hother | hother
          · exact hafter other hother
          · rwa [List.mem_singleton.mp hother]
        · next hnot =>
          cases h
          refine ⟨found, [], rfl, ?_, nofun⟩
          intro other hother
          apply Nat.le_trans _ (Nat.not_lt.mp hnot)
          rw [hfound, List.mem_append, List.mem_cons] at hother
          rcases hother with hother | rfl | hother
          · exact hbefore other hother
          · exact Nat.le_refl _
          · exact Nat.le_of_lt (hafter other hother)
      · next hnone =>
        cases h
        exact ⟨[], [], by rw [longest_eq_none_iff.mp hnone], nofun, nofun⟩

end Longest

/-- The entry that an IRI is abbreviated by has the longest namespace that the IRI begins with; of
several entries with that namespace it is the last. -/
structure Selects (mapping : PrefixMapping) (iri label space : String) (part : List Char) : Prop where
  mem : (label, space) ∈ mapping.entries
  begins : iri.toList = space.toList ++ part
  longest : ∀ entry ∈ mapping.entries, entry.2.toList <+: iri.toList → entry.2.length ≤ space.length
  last : ∀ entry ∈ mapping.entries, entry.2 = space → entry.1 ≤ label

theorem mem_matching_iff : (label, space, part) ∈ mapping.matching iri ↔
    (label, space) ∈ mapping.entries ∧ iri.toList = space.toList ++ part := by
  simp only [matching, List.mem_filterMap, Option.map_eq_some_iff, after?_eq_some_iff]
  constructor
  · rintro ⟨⟨_, _⟩, hentry, _, hiri, heq⟩
    cases heq
    exact ⟨hentry, hiri⟩
  · rintro ⟨hentry, hiri⟩
    exact ⟨_, hentry, part, hiri, rfl⟩

theorem ascending_matching (mapping : PrefixMapping) (iri : String) :
    (mapping.matching iri).Pairwise fun a b => a.1 < b.1 := by
  rw [matching, List.pairwise_filterMap]
  apply mapping.ascending.imp
  intro a b hlt c hc d hd
  obtain ⟨_, -, rfl⟩ := Option.map_eq_some_iff.mp hc
  obtain ⟨_, -, rfl⟩ := Option.map_eq_some_iff.mp hd
  exact hlt

theorem selects_of_longest (h : longest (mapping.matching iri) = some (label, space, part)) :
    mapping.Selects iri label space part := by
  obtain ⟨before, after, hfound, hbefore, hafter⟩ := exists_of_longest h
  have hself : (label, space, part) ∈ mapping.matching iri := by simp [hfound]
  -- an entry whose namespace the IRI begins with is in front of the one that is taken, is that one,
  -- or is behind it
  have hplace : ∀ entry ∈ mapping.entries, entry.2.toList <+: iri.toList → ∃ rest,
      (entry.1, entry.2, rest) ∈ before ∨ (entry.1, entry.2, rest) = (label, space, part) ∨
        (entry.1, entry.2, rest) ∈ after := by
    rintro ⟨label', space'⟩ hentry ⟨rest, hrest⟩
    have hmem := mem_matching_iff.mpr ⟨hentry, hrest.symm⟩
    rw [hfound, List.mem_append, List.mem_cons] at hmem
    exact ⟨rest, hmem⟩
  obtain ⟨hmem, hbegins⟩ := mem_matching_iff.mp hself
  refine ⟨hmem, hbegins, fun entry hentry hprefix => ?_, fun entry hentry heq => ?_⟩
  · obtain ⟨rest, hrest | hrest | hrest⟩ := hplace entry hentry hprefix
    · exact hbefore _ hrest
    · obtain ⟨-, rfl, -⟩ := hrest
      exact Nat.le_refl _
    · exact Nat.le_of_lt (hafter _ hrest)
  · have hascending := ascending_matching mapping iri
    rw [hfound, List.pairwise_append] at hascending
    obtain ⟨rest, hrest | hrest | hrest⟩ := hplace entry hentry ⟨part, by rw [heq, hbegins]⟩
    · exact Std.le_of_lt (hascending.2.2 _ hrest _ List.mem_cons_self)
    · cases hrest
      exact String.le_refl _
    · have hlt := hafter _ hrest
      rw [heq] at hlt
      exact absurd hlt (Nat.lt_irrefl _)

theorem Selects.unique {label' space' : String} {part' : List Char}
    (h : mapping.Selects iri label space part) (h' : mapping.Selects iri label' space' part') :
    label = label' ∧ space = space' ∧ part = part' := by
  have hlength : space.length = space'.length :=
    Nat.le_antisymm (h'.longest _ h.mem ⟨part, h.begins.symm⟩)
      (h.longest _ h'.mem ⟨part', h'.begins.symm⟩)
  obtain ⟨hspace, hpart⟩ := List.append_inj (h.begins.symm.trans h'.begins)
    (by simpa only [String.length_toList] using hlength)
  have hspaces := String.toList_inj.mp hspace
  exact ⟨String.le_antisymm (h'.last _ h.mem hspaces) (h.last _ h'.mem hspaces.symm), hspaces, hpart⟩

theorem longest_matching_iff : longest (mapping.matching iri) = some (label, space, part) ↔
    mapping.Selects iri label space part := by
  refine ⟨selects_of_longest, fun h => ?_⟩
  cases hlongest : longest (mapping.matching iri) with
  | none =>
      have hmem := mem_matching_iff.mpr ⟨h.mem, h.begins⟩
      rw [longest_eq_none_iff.mp hlongest] at hmem
      cases hmem
  | some found =>
      obtain ⟨label', space', part'⟩ := found
      obtain ⟨rfl, rfl, rfl⟩ := h.unique (selects_of_longest hlongest)
      rfl

/-- What an abbreviation is made of. -/
theorem abbreviate?_eq_some_iff : mapping.abbreviate? iri = some name ↔
    ∃ label space part, mapping.Selects iri label space part ∧ isPlainLocal part ∧
      name = label ++ ":" ++ String.ofList part := by
  simp only [← longest_matching_iff, abbreviate?]
  constructor
  · intro h
    split at h
    · next label space part hlongest =>
      split at h
      · next hplain =>
        cases h
        exact ⟨label, space, part, hlongest, hplain, rfl⟩
      · cases h
    · cases h
  · rintro ⟨label, space, part, hlongest, hplain, rfl⟩
    simp [hlongest, hplain]

/-! ## Expanding an abbreviation -/

theorem isPlainLocal_chars (h : isPlainLocal part) :
    ∀ c ∈ part, c.isAlphanum || c == '_' || c == '-' := by
  rw [isPlainLocal, Bool.and_eq_true] at h
  exact List.all_eq_true.mp h.1

theorem toList_shortName (label : String) (part : List Char) :
    (label ++ ":" ++ String.ofList part).toList = label.toList ++ ':' :: part := by
  simp

theorem splitFirst_append {separator : Char} {head tail : List Char} (h : separator ∉ head) :
    splitFirst separator (head ++ separator :: tail) = (head, some tail) := by
  have hall : ∀ c ∈ head, (c ≠ separator : Bool) := by
    intro c hc
    have hne : c ≠ separator := fun heq => h (heq ▸ hc)
    simpa using hne
  have hstop : Stops (fun c => (c ≠ separator : Bool)) (separator :: tail) :=
    stops_of_head? rfl (by simp)
  have htake : (head ++ separator :: tail).takeWhile (fun c => (c ≠ separator : Bool)) = head := by
    rw [takeWhile_append_of_stops hstop, List.takeWhile_eq_self_iff.mpr hall]
  have hdrop : (head ++ separator :: tail).dropWhile (fun c => (c ≠ separator : Bool)) =
      separator :: tail := by
    rw [← drop_count, count, htake, List.drop_left]
  unfold splitFirst
  rw [hdrop, htake]

/-- A label with a plain part behind it stands for the namespace of the label and that part. -/
theorem expand?_shortName (hentry : (label, space) ∈ mapping.entries) (hcolon : ':' ∉ label.toList)
    (hplain : isPlainLocal part) : mapping.expand? (label ++ ":" ++ String.ofList part) =
      some (space ++ String.ofList part) := by
  unfold expand?
  rw [toList_shortName, splitFirst_append hcolon]
  dsimp only
  split
  · exact absurd (isPlainLocal_chars hplain '/' List.mem_cons_self) (by decide)
  · rw [String.ofList_toList, SortedMap.get?_of_mem hentry]
    rfl

/-- An abbreviation expands to the IRI that was abbreviated. -/
theorem expand?_of_abbreviate? (h : mapping.abbreviate? iri = some name)
    (hcolons : ∀ entry ∈ mapping.entries, ':' ∉ entry.1.toList) : mapping.expand? name = some iri := by
  obtain ⟨label, space, part, hselects, hplain, rfl⟩ := abbreviate?_eq_some_iff.mp h
  rw [expand?_shortName hselects.mem (hcolons _ hselects.mem) hplain, Option.some_inj,
    ← String.toList_inj, hselects.begins, String.toList_append, String.toList_ofList]

/-! ## The token of an abbreviation -/

/-- A label that can be declared. -/
structure IsLabelName (label : String) : Prop where
  chars : ∀ c ∈ label.toList, isLabelChar c
  valid : isLabel label.toList

/-- A label with its colon is a token. -/
theorem IsLabelName.lexical {label : String} (h : IsLabelName label) :
    (Token.prefixed (label ++ ":")).Lexical := by
  have hname : label ++ ":" = String.ofList (label.toList ++ ':' :: []) := by
    rw [String.ofList_append, String.ofList_toList]
  rw [hname]
  exact .prefixed ⟨h.chars, h.valid, nofun, nofun⟩ fun _ => stops_nil _

theorem trimRight_append (c : Char) (cs : List Char) :
    ∃ n, cs = trimRight c cs ++ List.replicate n c := by
  refine ⟨(cs.reverse.takeWhile (· == c)).length, ?_⟩
  have hall : ∀ d ∈ cs.reverse.takeWhile (· == c), d = c := fun d hd => by
    simpa using mem_takeWhile d hd
  rw [← List.eq_replicate_of_mem hall, trimRight, ← List.reverse_inj, List.reverse_append,
    List.reverse_reverse, List.eq_replicate_of_mem hall, List.reverse_replicate,
    ← List.eq_replicate_of_mem hall, List.takeWhile_append_dropWhile]

/-- The label of a declaration, which stands in front of the colons of a prefixed name. -/
theorem IsLabelName.of_declaration {name : String} (h : (Token.prefixed name).Lexical)
    (hcolon : ':' ∉ trimRight ':' name.toList) :
    IsLabelName (String.ofList (trimRight ':' name.toList)) := by
  cases h with
  | @«prefixed» label part h _ =>
      rw [String.toList_ofList] at hcolon ⊢
      have hlabel : trimRight ':' (label ++ ':' :: part) = label := by
        obtain ⟨n, hn⟩ := trimRight_append ':' (label ++ ':' :: part)
        have hnot : ':' ∉ label := fun hmem => absurd (h.label_chars ':' hmem) (by decide)
        have hsplit : splitFirst ':' (label ++ ':' :: part) = (label, some part) :=
          splitFirst_append hnot
        cases n with
        | zero =>
            rw [List.replicate_zero, List.append_nil] at hn
            rw [← hn] at hcolon
            simp at hcolon
        | succ n =>
            rw [hn, List.replicate_succ, splitFirst_append hcolon] at hsplit
            exact (Prod.mk.inj hsplit).1
      rw [hlabel]
      exact ⟨by rw [String.toList_ofList]; exact h.label_chars,
        by rw [String.toList_ofList]; exact h.label_valid⟩

/-- A label that can be declared, with a plain part behind it, is a prefixed name. -/
theorem IsLabelName.lexical_shortName (h : IsLabelName label) (hblank : label ≠ "_")
    (hplain : isPlainLocal part) : (Token.prefixed (label ++ ":" ++ String.ofList part)).Lexical := by
  have hchars := isPlainLocal_chars hplain
  rw [← String.ofList_toList (s := label ++ ":" ++ String.ofList part), toList_shortName]
  refine .prefixed ⟨h.chars, h.valid, fun c hc => ?_, ?_⟩ ?_
  · have hc' := hchars c hc
    simp only [Char.isAlphanum, Bool.or_eq_true] at hc'
    rcases hc' with ((hc' | hc') | hc') | hc' <;>
      simp [isLocalChar, isLabelChar, isAlphanumeric, isAlphabetic, isWordLetter, isDecimalDigit,
        isWordDigit, hc']
  · intro hlast
    exact absurd (hchars '.' (List.mem_of_getLast? hlast)) (by decide)
  · intro hunderscore
    refine absurd ?_ hblank
    rw [← String.ofList_toList (s := label), hunderscore]

/-- An abbreviation is a prefixed name. -/
theorem lexical_of_abbreviate? (h : mapping.abbreviate? iri = some name)
    (hlabels : ∀ entry ∈ mapping.entries, IsPlainLabel entry.1)
    (hnames : ∀ entry ∈ mapping.entries, IsLabelName entry.1) : (Token.prefixed name).Lexical := by
  obtain ⟨label, space, part, hselects, hplain, rfl⟩ := abbreviate?_eq_some_iff.mp h
  exact (hnames _ hselects.mem).lexical_shortName (hlabels _ hselects.mem).2 hplain

end PrefixMapping

end StreamQuery
