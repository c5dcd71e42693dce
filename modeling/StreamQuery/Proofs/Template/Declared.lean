import Mathlib.Data.List.Nodup
import StreamQuery.Proofs.Except
import StreamQuery.Template

/-! # Templates with declared arguments

A declaration puts one argument to its place by name. So the names of the arguments are all different,
and in ascending order, and sorting them again in whatever order they come gives the arguments back.
-/

namespace StreamQuery

namespace Template

/-- Templates that were made of a query and got their label, their comment and their arguments since. -/
inductive Built : Template → Prop where
  | ofQuery {body : Query} {handle : String} {template : Template}
      (h : Template.ofQuery body handle = .ok template) : Built template
  | label {template : Template} (h : Built template) (label : String) :
      Built { template with label := some label }
  | comment {template : Template} (h : Built template) (comment : String) :
      Built { template with comment := some comment }
  | declare {template template' : Template} (h : Built template) {declaration : Declaration}
      {others : PrefixMapping} (hdeclare : template.declareWith declaration others = .ok template') :
      Built template'

/-- Arguments with names that can be declared, in ascending order. -/
structure Ordered (template : Template) : Prop where
  names : ∀ argument ∈ template.arguments, isArgumentName argument.name
  ascending : template.arguments.Pairwise fun a b => a.name < b.name

variable {template template' : Template} {name : String}

theorem sortArguments_perm (arguments : List Argument) : (sortArguments arguments).Perm arguments :=
  List.mergeSort_perm _ _

theorem pairwise_sortArguments (arguments : List Argument) :
    (sortArguments arguments).Pairwise fun a b => a.name ≤ b.name := by
  refine (List.pairwise_mergeSort ?_ ?_ arguments).imp fun h => by simpa using h
  · intro a b c hab hbc
    simp only [decide_eq_true_eq] at hab hbc ⊢
    exact String.le_trans hab hbc
  · intro a b
    simpa using String.le_total a.name b.name

/-- Arguments with ascending names, in whatever order they come, are sorted again. -/
theorem sortArguments_of_perm {arguments arguments' : List Argument} (h : arguments.Perm arguments')
    (hascending : arguments'.Pairwise fun a b => a.name < b.name) :
    sortArguments arguments = arguments' := by
  have hweak : arguments'.Pairwise fun a b => a.name ≤ b.name :=
    hascending.imp fun h => String.not_lt.mp fun hlt => String.lt_irrefl _ (String.lt_trans h hlt)
  have hnodup : (arguments'.map Argument.name).Nodup :=
    List.pairwise_map.mpr (hascending.imp fun h => (String.ne_of_lt h))
  apply List.Perm.eq_of_pairwise _ (pairwise_sortArguments arguments) hweak
  · exact (sortArguments_perm arguments).trans h
  · intro a b ha hb hab hba
    rw [(sortArguments_perm arguments).mem_iff, h.mem_iff] at ha
    exact List.inj_on_of_nodup_map hnodup ha hb (String.le_antisymm hab hba)

/-- A template is made of any query, if its handle is an IRI when its brackets are taken off. -/
theorem ofQuery_eq_ok_iff {body : Query} {handle : String} : ofQuery body handle = .ok template ↔
    ∃ iri, Iri.ofString? (String.ofList (Text.trimRight '>' (handle.toList.dropWhile (· == '<')))) =
      some iri ∧ template = ⟨iri, body, [], none, none⟩ := by
  unfold ofQuery
  dsimp only
  split
  · next iri hiri =>
      rw [hiri]
      simp [eq_comm]
  · next hnone =>
      rw [hnone]
      simp

theorem demand_eq_ok_iff {holds : Bool} {error : ConstructionError} {u : Unit} :
    demand holds error = .ok u ↔ holds := by
  unfold demand
  split
  · next h => exact iff_of_true rfl h
  · next h => exact iff_of_false nofun h

/-- A name that can be declared. -/
theorem new_of_checkName {u : Unit} (h : template.checkName name = .ok u) :
    isArgumentName name ∧ ∀ argument ∈ template.arguments, argument.name ≠ name := by
  obtain ⟨_, hname, h⟩ := bind_eq_ok_iff.mp h
  obtain ⟨_, hnew, -⟩ := bind_eq_ok_iff.mp h
  refine ⟨demand_eq_ok_iff.mp hname, ?_⟩
  rw [demand_eq_ok_iff, Option.isNone_iff_eq_none, argument?, List.find?_eq_none] at hnew
  exact fun argument hargument heq => hnew argument hargument (by simpa using heq)

/-- A declaration adds one argument, with a name that can be declared and is new. -/
theorem declareWith_eq_ok {declaration : Declaration} {others : PrefixMapping}
    (h : template.declareWith declaration others = .ok template') :
    ∃ argument : Argument, isArgumentName argument.name ∧
      (∀ other ∈ template.arguments, other.name ≠ argument.name) ∧
      template' = { template with arguments := sortArguments (template.arguments ++ [argument]) } := by
  obtain ⟨_, hname, h⟩ := bind_eq_ok_iff.mp h
  obtain ⟨type, -, h⟩ := bind_eq_ok_iff.mp h
  obtain ⟨default, -, h⟩ := bind_eq_ok_iff.mp h
  cases h
  obtain ⟨hvalid, hnew⟩ := new_of_checkName hname
  exact ⟨⟨withoutSigils declaration.name, type, declaration.optional, default, declaration.label,
    declaration.comment⟩, hvalid, hnew, rfl⟩

theorem Ordered.nodup (h : template.Ordered) : (template.arguments.map Argument.name).Nodup :=
  List.pairwise_map.mpr (h.ascending.imp fun hlt => String.ne_of_lt hlt)

theorem Ordered.declare {argument : Argument} (h : template.Ordered) (hname : isArgumentName argument.name)
    (hnew : ∀ other ∈ template.arguments, other.name ≠ argument.name) :
    Ordered { template with arguments := sortArguments (template.arguments ++ [argument]) } where
  names other hother := by
    rw [(sortArguments_perm _).mem_iff, List.mem_append, List.mem_singleton] at hother
    rcases hother with hother | rfl
    · exact h.names other hother
    · exact hname
  ascending := by
    have hnodup : ((template.arguments ++ [argument]).map Argument.name).Nodup := by
      rw [List.map_append, List.nodup_append]
      refine ⟨h.nodup, List.nodup_singleton _, fun a ha b hb heq => ?_⟩
      obtain ⟨other, hother, rfl⟩ := List.mem_map.mp ha
      exact hnew other hother (heq.trans (List.mem_singleton.mp hb))
    rw [← ((sortArguments_perm _).map Argument.name).nodup_iff] at hnodup
    -- sorted names that are all different are in strictly ascending order
    refine ((pairwise_sortArguments _).and (List.pairwise_map.mp hnodup)).imp fun ⟨hle, hne⟩ => ?_
    exact String.not_le.mp fun hge => hne (String.le_antisymm hle hge)

theorem Built.ordered (h : template.Built) : template.Ordered := by
  induction h with
  | ofQuery h =>
      obtain ⟨iri, -, rfl⟩ := ofQuery_eq_ok_iff.mp h
      exact ⟨fun _ hargument => absurd hargument List.not_mem_nil, .nil⟩
  | label _ _ ih => exact ⟨ih.names, ih.ascending⟩
  | comment _ _ ih => exact ⟨ih.names, ih.ascending⟩
  | declare _ hdeclare ih =>
      obtain ⟨argument, hvalid, hnew, rfl⟩ := declareWith_eq_ok hdeclare
      exact ih.declare hvalid hnew

end Template

end StreamQuery
