import StreamQuery.Codec.Encode
import StreamQuery.Proofs.Duration
import StreamQuery.Proofs.Graph

/-! # Graphs while they are written

Blank nodes are numbered in the order in which they are taken. A node is described right after it was
taken, and never again when the next piece of the graph is finished. The invariant is `Sound`, what a
step keeps of the nodes before it is `Grows`, and `Building` is the state between the steps that
describe one node.
-/

namespace StreamQuery

namespace Encoding

/-- The properties of the node of a variable. -/
def variableProperties (name : String) : List (Iri × Object) :=
  [(Vocabulary.rdfType, .ofIri Vocabulary.variableClass), (Vocabulary.varName, .ofString name)]

/-- What the graph says of a numbered node. -/
def Says (e : Encoding) (i : Nat) (property : Iri) (object : Object) : Prop :=
  ⟨.blank (e.supply i), property, object⟩ ∈ e.graph.triples

/-- A node that has exactly the given properties. -/
def Has (e : Encoding) (i : Nat) (properties : List (Iri × Object)) : Prop :=
  ∀ property object, e.Says i property object ↔ (property, object) ∈ properties

/-- An encoding that describes only its own blank nodes, that knows the nodes of its variables, and
whose only query is its first node. -/
structure Sound (e : Encoding) : Prop where
  distinct : Function.Injective e.supply
  owned : ∀ triple ∈ e.graph.triples, ∀ label, triple.subject = .blank label →
    ∃ i < e.next, label = e.supply i
  named : ∀ name label, e.labels.get? name = some label →
    ∃ i < e.next, label = e.supply i ∧ e.Has i (variableProperties name)
  forms : ∀ subject (form : QueryForm),
    ⟨subject, Vocabulary.rdfType, .ofIri form.iri⟩ ∈ e.graph.triples → subject = .blank (e.supply 0)

/-- Nodes are added, and of the nodes that were there at most one is described further. -/
structure Grows (n : Nat) (e e' : Encoding) : Prop where
  supply : e'.supply = e.supply
  next : e.next ≤ e'.next
  same : ∀ i < e.next, i ≠ n → ∀ property object,
    e'.Says i property object ↔ e.Says i property object
  labels : ∀ i < e.next, ∀ name,
    e'.labels.get? name = some (e.supply i) ↔ e.labels.get? name = some (e.supply i)

variable {e e' e'' start : Encoding} {i n : Nat} {properties : List (Iri × Object)}

theorem Sound.empty {supply : Nat → String} (h : Function.Injective supply) :
    (Encoding.empty supply).Sound where
  distinct := h
  owned := nofun
  named := nofun
  forms := nofun

theorem Grows.refl (n : Nat) (e : Encoding) : Grows n e e :=
  ⟨rfl, Nat.le_refl _, fun _ _ _ _ _ => Iff.rfl, fun _ _ _ => Iff.rfl⟩

theorem Grows.trans (h : Grows n e e') (h' : Grows n e' e'') : Grows n e e'' where
  supply := h'.supply.trans h.supply
  next := Nat.le_trans h.next h'.next
  same i hi hne property object :=
    (h'.same i (Nat.lt_of_lt_of_le hi h.next) hne property object).trans
      (h.same i hi hne property object)
  labels i hi name := by
    have hlabels := h'.labels i (Nat.lt_of_lt_of_le hi h.next) name
    rw [h.supply] at hlabels
    exact hlabels.trans (h.labels i hi name)

/-- If only a new node is described further, all nodes that were there stay as they are. -/
theorem Grows.of_new (h : Grows n e e') (hn : e.next ≤ n) (m : Nat) : Grows m e e' where
  supply := h.supply
  next := h.next
  same i hi _ := h.same i hi (Nat.ne_of_lt (Nat.lt_of_lt_of_le hi hn))
  labels := h.labels

theorem Has.grows (h : e.Has i properties) (hgrows : Grows n e e') (hi : i < e.next) (hne : i ≠ n) :
    e'.Has i properties := by
  intro property object
  rw [hgrows.same i hi hne]
  exact h property object

theorem Sound.label_grows (h : e.Sound) (hgrows : Grows n e e') {name label : String}
    (hlabel : e.labels.get? name = some label) : e'.labels.get? name = some label := by
  obtain ⟨i, hi, rfl, -⟩ := h.named name label hlabel
  exact (hgrows.labels i hi name).mpr hlabel

/-- Numbered labels are told apart by their numbers. -/
theorem numbered_injective : Function.Injective numbered := by
  intro m n h
  have hdigits : Text.decimal m = Text.decimal n := by
    simpa [numbered] using congrArg String.toList h
  rw [← Text.digitsValue_decimal m, hdigits, Text.digitsValue_decimal n]

/-! ## The node of a variable -/

theorem run_variableNode_of_some {name label : String} (h : e.labels.get? name = some label) :
    (Encoder.variableNode name).run e = (label, e) := by
  unfold Encoder.variableNode
  rw [StateT.run_bind, StateT.run_get, pure_bind, h]
  rfl

/-- A variable that is met first gets a node, which is remembered. -/
theorem run_variableNode_of_none {name : String} (h : e.labels.get? name = none) :
    (Encoder.variableNode name).run e = (do
      let label ← Encoder.fresh
      Encoder.describe label Vocabulary.rdfType (.ofIri Vocabulary.variableClass)
      Encoder.describe label Vocabulary.varName (.ofString name)
      modify fun e => { e with labels := e.labels.insert name label }
      return label : Encoder String).run e := by
  unfold Encoder.variableNode
  rw [StateT.run_bind, StateT.run_get, pure_bind, h]

/-! ## Describing a new node -/

/-- A node is being described. It was not there at the start, and everything that was there is as it
was. -/
structure Building (start : Encoding) (n : Nat) (properties : List (Iri × Object)) (e : Encoding) :
    Prop where
  sound : e.Sound
  grows : Grows n start e
  new : start.next ≤ n
  bound : n < e.next
  has : e.Has n properties
  unlabelled : ∀ name, e.labels.get? name ≠ some (e.supply n)

/-- An encoding with one more property of a numbered node. -/
def describe (e : Encoding) (n : Nat) (property : Iri) (object : Object) : Encoding :=
  { e with graph := e.graph.add ⟨.blank (e.supply n), property, object⟩ }

theorem says_describe (h : e.Sound) {property property' : Iri} {object object' : Object} :
    (e.describe n property object).Says i property' object' ↔
      i = n ∧ property' = property ∧ object' = object ∨ e.Says i property' object' := by
  unfold Says describe
  rw [Graph.mem_add]
  simp [h.distinct.eq_iff]

theorem Sound.building (h : e.Sound) :
    Building e e.next [] { e with next := e.next + 1 } where
  sound :=
    { distinct := h.distinct
      owned := fun triple htriple label hlabel => by
        obtain ⟨i, hi, heq⟩ := h.owned triple htriple label hlabel
        exact ⟨i, Nat.lt_succ_of_lt hi, heq⟩
      named := fun name label hlabel => by
        obtain ⟨i, hi, hrest⟩ := h.named name label hlabel
        exact ⟨i, Nat.lt_succ_of_lt hi, hrest⟩
      forms := h.forms }
  grows := ⟨rfl, Nat.le_succ _, fun _ _ _ _ _ => Iff.rfl, fun _ _ _ => Iff.rfl⟩
  new := Nat.le_refl _
  bound := Nat.lt_succ_self _
  has property object := by
    -- a node that has not been taken is in no triple
    have hnot : ¬ e.Says e.next property object := by
      intro htold
      obtain ⟨i, hi, heq⟩ := h.owned _ htold _ rfl
      exact Nat.ne_of_gt hi (h.distinct heq)
    exact iff_of_false hnot List.not_mem_nil
  unlabelled name hlabel := by
    obtain ⟨i, hi, heq, -⟩ := h.named name _ hlabel
    exact Nat.ne_of_gt hi (h.distinct heq)

namespace Building

theorem supply_eq (h : Building start n properties e) : e.supply = start.supply := h.grows.supply

theorem grows_describe (h : Building start n properties e) (property : Iri) (object : Object) :
    Grows n e (e.describe n property object) where
  supply := rfl
  next := Nat.le_refl _
  same i _ hne property' object' := by
    rw [says_describe h.sound]
    simp [hne]
  labels _ _ _ := Iff.rfl

/-- A node that is being described gets one more property; only the first node can be a query. -/
theorem describe (h : Building start n properties e) {property : Iri} {object : Object}
    (hform : ∀ form : QueryForm, property = Vocabulary.rdfType → object = .ofIri form.iri → n = 0) :
    Building start n (properties ++ [(property, object)]) (e.describe n property object) where
  sound :=
    { distinct := h.sound.distinct
      owned := fun triple htriple label hlabel => by
        rcases Graph.mem_add.mp htriple with rfl | htriple
        · cases hlabel
          exact ⟨n, h.bound, rfl⟩
        · exact h.sound.owned triple htriple label hlabel
      named := fun name label hlabel => by
        obtain ⟨i, hi, rfl, hhas⟩ := h.sound.named name label hlabel
        have hne : i ≠ n := by
          rintro rfl
          exact h.unlabelled name hlabel
        exact ⟨i, hi, rfl, hhas.grows (h.grows_describe property object) hi hne⟩
      forms := fun subject form htriple => by
        rcases Graph.mem_add.mp htriple with heq | htriple
        · cases heq
          rw [hform form rfl rfl]
          rfl
        · exact h.sound.forms subject form htriple }
  grows := h.grows.trans (h.grows_describe property object)
  new := h.new
  bound := h.bound
  has property' object' := by
    rw [says_describe h.sound, h.has property' object']
    simp [or_comm]
  unlabelled := h.unlabelled

/-- What is added elsewhere does not disturb the description of a node. -/
theorem step (h : Building start n properties e) (hsound : e'.Sound)
    (hgrows : ∀ m, Grows m e e') : Building start n properties e' where
  sound := hsound
  grows := h.grows.trans (hgrows n)
  new := h.new
  bound := Nat.lt_of_lt_of_le h.bound (hgrows n).next
  has := h.has.grows (hgrows (n + 1)) h.bound (Nat.ne_of_lt (Nat.lt_succ_self n))
  unlabelled name hlabel := by
    rw [(hgrows n).supply, (hgrows n).labels n h.bound] at hlabel
    exact h.unlabelled name hlabel

/-- A node that was described as a variable is remembered. -/
theorem remember {name : String} (h : Building start n (variableProperties name) e)
    (hnone : e.labels.get? name = none) :
    (∀ m, Grows m start { e with labels := e.labels.insert name (e.supply n) }) ∧
      { e with labels := e.labels.insert name (e.supply n) }.Sound := by
  -- the name is new, so no node that was there loses its own
  have hold : ∀ name' label, e.labels.get? name' = some label → name' ≠ name := by
    rintro name' label hlabel rfl
    rw [hnone] at hlabel
    cases hlabel
  constructor
  · apply Grows.of_new _ h.new
    refine ⟨h.grows.supply, h.grows.next, h.grows.same, fun i hi name' => ?_⟩
    rw [SortedMap.get?_insert_eq_some_iff, ← h.grows.labels i hi name', ← h.grows.supply,
      h.sound.distinct.eq_iff]
    constructor
    · rintro (⟨-, rfl⟩ | ⟨hlabel, -⟩)
      · exact absurd h.new (Nat.not_le_of_lt hi)
      · exact hlabel
    · intro hlabel
      exact .inr ⟨hlabel, hold name' _ hlabel⟩
  · refine ⟨h.sound.distinct, h.sound.owned, fun name' label hlabel => ?_, h.sound.forms⟩
    rcases SortedMap.get?_insert_eq_some_iff.mp hlabel with ⟨rfl, rfl⟩ | ⟨hlabel, -⟩
    · exact ⟨n, h.bound, rfl, h.has⟩
    · exact h.sound.named name' label hlabel

end Building

end Encoding

end StreamQuery
