import StreamQuery.Codec.Template
import StreamQuery.Proofs.Codec.Decoding
import StreamQuery.Proofs.Codec.Renaming
import StreamQuery.Proofs.Iri
import StreamQuery.Proofs.Prefixes

/-! # Arguments through graphs and back

An argument is a node with properties of its own. Its name is kept as the fragment of an IRI, so a name
that can be declared is read again.
-/

namespace StreamQuery

open Text

/-! ## Names of arguments -/

theorem Text.after?_append (mark rest : List Char) : after? mark (mark ++ rest) = some rest := by
  induction mark with
  | nil => rfl
  | cons m mark ih => rw [List.cons_append, after?, if_pos rfl, ih]

namespace IriGrammar

/-- Behind the namespace of arguments, a fragment makes an IRI. -/
theorem isAbsolute_argumentNamespace {cs : List Char} (h : isComponent isFragmentChar cs) :
    isAbsolute (Vocabulary.argumentNamespace.toList ++ cs) := by
  have hspace : Vocabulary.argumentNamespace.toList ++ cs =
      "http".toList ++ ':' :: ("//spinrdf.org/arg".toList ++ '#' :: cs) := by
    rw [show Vocabulary.argumentNamespace.toList =
      "http".toList ++ ':' :: ("//spinrdf.org/arg".toList ++ ['#']) by decide]
    simp only [List.append_assoc, List.cons_append, List.nil_append]
  have hscheme : afterScheme? ("http".toList ++ ':' :: ("//spinrdf.org/arg".toList ++ '#' :: cs)) =
      some ("//spinrdf.org/arg".toList ++ '#' :: cs) := by
    rw [afterScheme?, PrefixMapping.splitFirst_append (by decide)]
    rfl
  have hafter : isAfterScheme ("//spinrdf.org/arg".toList ++ '#' :: cs) := by
    rw [isAfterScheme, PrefixMapping.splitFirst_append (by decide)]
    have hbody : splitFirst '?' "//spinrdf.org/arg".toList = ("//spinrdf.org/arg".toList, none) := by
      decide
    have hhierarchy : isHierarchy "//spinrdf.org/arg".toList := by decide +kernel
    simp only [hbody, hhierarchy, Option.all_none, Option.all_some, Bool.and_self, h]
  rw [isAbsolute, hspace, hscheme]
  exact hafter

end IriGrammar

theorem Template.isFragmentChar_of_isArgumentName {name : String} (h : isArgumentName name) :
    IriGrammar.isComponent IriGrammar.isFragmentChar name.toList := by
  rw [isArgumentName, Bool.and_eq_true] at h
  refine IriGrammar.isComponent_of_all fun c hc => ?_
  have hchar := List.all_eq_true.mp h.2 c hc
  rw [Bool.or_eq_true, beq_iff_eq] at hchar
  rcases hchar with hchar | rfl
  · refine ⟨by simp [IriGrammar.isFragmentChar, IriGrammar.isPathChar, IriGrammar.isHostChar,
      IriGrammar.isUnreserved, hchar], ?_⟩
    rintro rfl
    exact absurd hchar (by decide)
  · decide

/-- A name that can be declared is the name of a property, which is read as that name. -/
theorem exists_argumentProperty {name : String} (h : Template.isArgumentName name) :
    ∃ property, Encoder.argumentProperty? name = some property ∧ Graph.argumentName property = name := by
  have habsolute : IriGrammar.isAbsolute (Vocabulary.argumentNamespace ++ name).toList := by
    rw [String.toList_append]
    exact IriGrammar.isAbsolute_argumentNamespace (Template.isFragmentChar_of_isArgumentName h)
  refine ⟨⟨_, habsolute⟩, dif_pos habsolute, ?_⟩
  unfold Graph.argumentName
  dsimp only
  rw [String.toList_append, Text.after?_append]
  exact String.ofList_toList

/-! ## Nodes with several properties -/

/-- What a graph says of a node: properties with their objects, each property once. -/
structure Graph.Describes (graph : Graph) (node : Node) (groups : List (Iri × List Object)) : Prop where
  keys : (groups.map Prod.fst).Nodup
  holds : ∀ property object,
    ⟨node, property, object⟩ ∈ graph.triples ↔ (property, object) ∈ Encoding.spread groups

namespace Graph.Describes

variable {graph : Graph} {node : Node} {groups : List (Iri × List Object)}
  (h : graph.Describes node groups) (property : Iri)

include h

theorem mem_iff {objects : List Object} (hmem : (property, objects) ∈ groups) (object : Object) :
    ⟨node, property, object⟩ ∈ graph.triples ↔ object ∈ objects :=
  (h.holds property object).trans (Encoding.mem_spread h.keys hmem object)

theorem object?_eq (found : Option Object) (hmem : (property, found.toList) ∈ groups) :
    graph.object? node.text property = found := by
  cases found with
  | none =>
      exact object?_eq_none fun value hvalue =>
        List.not_mem_nil ((h.mem_iff property hmem value).mp hvalue)
  | some object =>
      exact object?_eq_some fun value => (h.mem_iff property hmem value).trans List.mem_singleton

theorem literalValue?_eq (text : Option String)
    (hmem : (property, (text.map Object.ofString).toList) ∈ groups) :
    graph.literalValue? node.text property = text := by
  rw [literalValue?, h.object?_eq property _ hmem]
  cases text <;> rfl

end Graph.Describes

namespace Encoding

/-! ## Arguments in an encoding -/

/-- The properties of an argument, with the objects that stand for its default. -/
def argumentProperties (argument : Argument) (defaults : List Object) : List (Iri × List Object) :=
  [(Vocabulary.rdfType, [.ofIri Vocabulary.argumentClass]),
    (Vocabulary.argumentPredicate, ((Encoder.argumentProperty? argument.name).map .ofIri).toList),
    (Vocabulary.argumentValueType, (argument.type.map .ofIri).toList),
    (Vocabulary.argumentDefault, defaults),
    (Vocabulary.argumentOptional,
      [.literal (.typed (if argument.optional then "true" else "false") Vocabulary.xsdBoolean.text)]),
    (Vocabulary.rdfsLabel, (argument.label.map .ofString).toList),
    (Vocabulary.rdfsComment, (argument.comment.map .ofString).toList)]

theorem nodup_argumentProperties (argument : Argument) (defaults : List Object) :
    ((argumentProperties argument defaults).map Prod.fst).Nodup := by
  change [Vocabulary.rdfType, Vocabulary.argumentPredicate, Vocabulary.argumentValueType,
    Vocabulary.argumentDefault, Vocabulary.argumentOptional, Vocabulary.rdfsLabel,
    Vocabulary.rdfsComment].Nodup
  decide

/-- A node with the properties of an argument, and with nothing else. -/
def IsArgument (e : Encoding) (i : Nat) (argument : Argument) : Prop :=
  i < e.next ∧ ∃ defaults, List.Forall₂ e.Stands argument.default.toList defaults ∧
    e.Has i (spread (argumentProperties argument defaults))

variable {e e' start : Encoding} {i n : Nat} {argument : Argument}

theorem IsArgument.grows (h : e.IsArgument i argument) (hsound : e.Sound) (hgrows : Grows n e e')
    (hne : i ≠ n) : e'.IsArgument i argument := by
  obtain ⟨hi, defaults, hdefaults, hhas⟩ := h
  exact ⟨Nat.lt_of_lt_of_le hi hgrows.next, defaults,
    hdefaults.imp fun _ _ h => h.grows hsound hgrows, hhas.grows hgrows hi hne⟩

/-- The description of an argument behind its label. -/
def describeArgument (argument : Argument) (label : String) : Encoder Unit := do
  Encoder.describe label Vocabulary.rdfType (.ofIri Vocabulary.argumentClass)
  Encoder.optional (.blank label) Vocabulary.argumentPredicate
    ((Encoder.argumentProperty? argument.name).map .ofIri)
  Encoder.optional (.blank label) Vocabulary.argumentValueType (argument.type.map .ofIri)
  Encoder.optionalTerm label Vocabulary.argumentDefault argument.default
  Encoder.describe label Vocabulary.argumentOptional
    (.literal (.typed (if argument.optional then "true" else "false") Vocabulary.xsdBoolean.text))
  Encoder.optional (.blank label) Vocabulary.rdfsLabel (argument.label.map .ofString)
  Encoder.optional (.blank label) Vocabulary.rdfsComment (argument.comment.map .ofString)

theorem argument_eq_describe (argument : Argument) : Encoder.argument argument = do
    let label ← Encoder.fresh
    describeArgument argument label
    return label := by
  unfold Encoder.argument describeArgument
  simp only [bind_assoc]

theorem form_ne_argumentClass (form : QueryForm) :
    Object.ofIri Vocabulary.argumentClass ≠ .ofIri form.iri := by
  cases form <;> decide

theorem describes_argument (argument : Argument) :
    Describes start n (describeArgument argument (start.supply n)) fun added e =>
      ∃ defaults, List.Forall₂ e.Stands argument.default.toList defaults ∧
        added = spread (argumentProperties argument defaults) := by
  have hclass : Describes start n (Encoder.describe (start.supply n) Vocabulary.rdfType
      (.ofIri Vocabulary.argumentClass)) _ := .one fun form _ h => absurd h (form_ne_argumentClass form)
  have hflag : ∀ object, Describes start n
      (Encoder.describe (start.supply n) Vocabulary.argumentOptional object) _ :=
    fun _ => .one fun _ h => absurd h (by decide)
  have hoptional : ∀ property ≠ Vocabulary.rdfType, ∀ object, Describes start n
      (Encoder.optional (.blank (start.supply n)) property object) _ :=
    fun _ => describes_optional
  have hdefault : Describes start n (Encoder.optionalTerm (start.supply n) Vocabulary.argumentDefault
      argument.default) _ := describes_optionalTerm (by decide) _
  refine (hclass.before ((hoptional _ (by decide) _).before ((hoptional _ (by decide) _).before
    (hdefault.seq ((hflag _).before ((hoptional _ (by decide) _).before (hoptional _ (by decide) _)))
      (kept_optionalTerm _ _))))).mono ?_
  rintro added e ⟨_, _, rfl, rfl, _, _, rfl, rfl, _, _, rfl, rfl, _, _, rfl, ⟨defaults, hdefaults, rfl⟩,
    _, _, rfl, rfl, _, _, rfl, rfl, rfl⟩
  refine ⟨defaults, hdefaults, ?_⟩
  simp [spread, argumentProperties]

theorem adds_argument (argument : Argument) : Adds (Encoder.argument argument) fun _ label e =>
    ∃ i, label = e.supply i ∧ e.IsArgument i argument := by
  intro e hsound
  rw [argument_eq_describe]
  obtain ⟨hnext, hgrows, i, -, hi, hlabel, properties, hhas, defaults, hdefaults, rfl⟩ :=
    Adds.of_describes (describeArgument argument) (fun _ _ => describes_argument argument) e hsound
  exact ⟨hnext, hgrows, i, hlabel, hi, defaults, hdefaults, hhas⟩

/-! ## Reading an argument -/

/-- A term that may be missing is read as it was written. -/
theorem optionalTerm_eq {node : Node} {property : Iri} {term : Option Term} {objects : List Object}
    {groups : List (Iri × List Object)} (hread : e.Readable) (h : e.graph.Describes node groups)
    (hmem : (property, objects) ∈ groups) (hobjects : List.Forall₂ e.Stands term.toList objects) :
    e.graph.optionalTerm node.text property = .ok term := by
  unfold Graph.optionalTerm
  cases term with
  | none =>
      cases hobjects
      rw [h.object?_eq property none hmem]
  | some value =>
      obtain ⟨object, others, hstands, hothers, rfl⟩ := List.forall₂_cons_left_iff.mp hobjects
      cases hothers
      rw [h.object?_eq property (some object) hmem]
      exact map_eq_ok_iff.mpr ⟨value, hstands.term_eq hread, rfl⟩

/-- An argument is read as it was written, if its name can be declared. -/
theorem IsArgument.argument_eq (h : e.IsArgument i argument) (hread : e.Readable)
    (hname : Template.isArgumentName argument.name) :
    e.graph.argument (e.nodeText i) = .ok argument := by
  obtain ⟨-, defaults, hdefaults, hhas⟩ := h
  obtain ⟨property, hproperty, hargument⟩ := exists_argumentProperty hname
  have htold : e.graph.Describes (.blank (e.supply i)) (argumentProperties argument defaults) :=
    ⟨nodup_argumentProperties argument defaults, hhas⟩
  have hobject : ∀ key found, (key, found.toList) ∈ argumentProperties argument defaults →
      e.graph.object? (e.nodeText i) key = found := htold.object?_eq
  have htext : ∀ key text,
      (key, (text.map Object.ofString).toList) ∈ argumentProperties argument defaults →
      e.graph.literalValue? (e.nodeText i) key = text := htold.literalValue?_eq
  have hpredicate := hobject Vocabulary.argumentPredicate (some (.ofIri property))
    (by simp [argumentProperties, hproperty])
  have htype := hobject Vocabulary.argumentValueType (argument.type.map .ofIri)
    (by simp [argumentProperties])
  have hdefault : e.graph.optionalTerm (e.nodeText i) Vocabulary.argumentDefault = .ok argument.default :=
    optionalTerm_eq hread htold (by simp [argumentProperties]) hdefaults
  have hflag := hobject Vocabulary.argumentOptional (some (.literal (.typed
    (if argument.optional then "true" else "false") Vocabulary.xsdBoolean.text)))
    (by simp [argumentProperties])
  have hlabel := htext Vocabulary.rdfsLabel argument.label (by simp [argumentProperties])
  have hcomment := htext Vocabulary.rdfsComment argument.comment (by simp [argumentProperties])
  have hany : ((e.graph.literalValue? (e.nodeText i) Vocabulary.argumentOptional).any fun text =>
      text == "true" || text == "1") = argument.optional := by
    rw [Graph.literalValue?, hflag]
    cases argument.optional <;> decide
  unfold Graph.argument
  rw [Graph.required, hpredicate, htype, hany, hlabel, hcomment]
  refine bind_eq_ok_iff.mpr ⟨_, rfl, bind_eq_ok_iff.mpr ⟨argument.name, congrArg Except.ok hargument, ?_⟩⟩
  obtain ⟨name, type, optional, default, label, comment⟩ := argument
  cases type with
  | none => exact bind_eq_ok_iff.mpr ⟨none, rfl, bind_eq_ok_iff.mpr ⟨default, hdefault, rfl⟩⟩
  | some type => exact bind_eq_ok_iff.mpr ⟨some type, rfl, bind_eq_ok_iff.mpr ⟨default, hdefault, rfl⟩⟩

end Encoding

namespace Relabelling

variable {ρ : Relabelling}

theorem sameObject_ofString? (value : Option String) :
    ∀ object ∈ value.map Object.ofString, ρ.SameObject object object := by
  intro object hobject
  obtain ⟨text, -, rfl⟩ := Option.mem_map.mp hobject
  exact .literal _

theorem follows_argument (argument : Argument) :
    ρ.Follows ρ.SameLabel (Encoder.argument argument) (Encoder.argument argument) := by
  unfold Encoder.argument
  refine follows_fresh.bind fun label label' hlabel => ?_
  refine (both_class (by decide) hlabel).bind fun _ _ _ => ?_
  refine (both_optional hlabel (by decide) (sameObject_ofIri? _)).bind fun _ _ _ => ?_
  refine (both_optional hlabel (by decide) (sameObject_ofIri? _)).bind fun _ _ _ => ?_
  refine (both_optionalTerm hlabel (by decide) _).bind fun _ _ _ => ?_
  refine (both_property (by decide) hlabel (.literal _)).bind fun _ _ _ => ?_
  refine (both_optional hlabel (by decide) (sameObject_ofString? _)).bind fun _ _ _ => ?_
  exact (both_optional hlabel (by decide) (sameObject_ofString? _)).bind fun _ _ _ => .pure hlabel

end Relabelling

end StreamQuery
