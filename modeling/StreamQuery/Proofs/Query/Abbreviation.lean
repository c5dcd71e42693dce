import StreamQuery.Proofs.Query.Reading

/-! # Abbreviations in queries

Under any mapping an IRI is abbreviated by the longest namespace that it begins with, and what is
behind that namespace has to be plain. The abbreviation expands to the IRI again; with a label that a
query can declare, it is read as one token.
-/

namespace StreamQuery

namespace Query

/-- A label that stands in the declarations of some query. -/
def DeclaresLabel (label : String) : Prop :=
  ∃ text query, read text = .ok query ∧ query.prologue.prefixes.contains label

theorem DeclaresLabel.isLabelName {label : String} (h : DeclaresLabel label)
    (hplain : PrefixMapping.IsPlainLabel label) : PrefixMapping.IsLabelName label := by
  obtain ⟨text, query, hread, hcontains⟩ := h
  obtain ⟨space, hspace⟩ := Option.isSome_iff_exists.mp hcontains
  exact (fromTokens_of_read hread).labels _ (SortedMap.mem_of_get? hspace) hplain

end Query

namespace PrefixMapping

/-- An IRI is abbreviated just if what stands behind its longest namespace is plain. Its abbreviation
expands to the IRI, is made of the last label with that namespace, and is one token if a query can
declare the label, that of blank nodes apart. -/
theorem abbreviation_expands {mapping : PrefixMapping}
    (hcolons : ∀ entry ∈ mapping.entries, ':' ∉ entry.1.toList) (iri : String) :
    match mapping.abbreviate? iri with
    | some name => mapping.expand? name = some iri ∧
        ∃ label space part, mapping.Selects iri label space part ∧
          name = label ++ ":" ++ String.ofList part ∧
          (Query.DeclaresLabel label → label ≠ "_" → Token.read name = .ok [.prefixed name])
    | none => ∀ label space part, mapping.Selects iri label space part → ¬ isPlainLocal part := by
  cases h : mapping.abbreviate? iri with
  | none =>
      intro label space part hselects hplain
      rw [abbreviate?_eq_some_iff.mpr ⟨label, space, part, hselects, hplain, rfl⟩] at h
      cases h
  | some name =>
      refine ⟨expand?_of_abbreviate? h hcolons, ?_⟩
      obtain ⟨label, space, part, hselects, hplain, rfl⟩ := abbreviate?_eq_some_iff.mp h
      refine ⟨label, space, part, hselects, rfl, fun hdeclares hblank => ?_⟩
      have hlabel := hdeclares.isLabelName ⟨hcolons _ hselects.mem, hblank⟩
      exact Token.read_eq_ok_iff.mpr (hlabel.lexical_shortName hblank hplain).tokens?_text

/-- Namespaces of which one is empty, one is inside another and two are equal. -/
def nested : PrefixMapping :=
  .ofList [("", "http://x.org/"), ("a", "http://x.org/a/"), ("b", "http://x.org/a/"), ("e", "")]

theorem abbreviation_expands_nested :
    (∀ entry ∈ nested.entries, ':' ∉ entry.1.toList) ∧
      nested.abbreviate? "http://x.org/a/x-1" = some "b:x-1" ∧
      nested.expand? "b:x-1" = some "http://x.org/a/x-1" ∧
      Token.read "b:x-1" = .ok [.prefixed "b:x-1"] := by
  have hcolons : ∀ entry ∈ nested.entries, ':' ∉ entry.1.toList := by decide +kernel
  have hlongest : longest (nested.matching "http://x.org/a/x-1") =
      some ("b", "http://x.org/a/", "x-1".toList) := by decide +kernel
  have hname : nested.abbreviate? "http://x.org/a/x-1" = some "b:x-1" := by decide +kernel
  have hdeclares : Query.DeclaresLabel "b" :=
    ⟨"PREFIX b: <http://x.org/a/> ASK \x7b \x7d",
      .ofBody ⟨none, SortedMap.empty.insert "b" "http://x.org/a/"⟩ ⟨.ask, [], some .nil, []⟩,
      by decide +kernel, by decide +kernel⟩
  have h := abbreviation_expands hcolons "http://x.org/a/x-1"
  rw [hname] at h
  obtain ⟨hexpand, label, space, part, hselects, -, hread⟩ := h
  obtain ⟨rfl, -, -⟩ := (selects_of_longest hlongest).unique hselects
  exact ⟨hcolons, hname, hexpand, hread hdeclares (by decide)⟩

/-- A label that no query declares need not stay with its colon, and that of blank nodes names none. -/
example : Token.read "1a:x" = .ok [.number "1", .prefixed "a:x"] ∧
    Token.read "_:x" = .ok [.blank "_:x"] := by decide +kernel

end PrefixMapping

end StreamQuery
