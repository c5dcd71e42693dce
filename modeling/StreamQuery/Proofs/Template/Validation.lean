import StreamQuery.Proofs.Template.Declaration

/-! # Validating the bindings of raw parameters

Reading a raw value and judging a value tell types apart in the same way. So a value that was read is
judged only where its type is a class, and an argument is missing only if nothing could be read for it.
-/

namespace StreamQuery

/-- The argument that a validation error is about. -/
def ValidationError.argument : ValidationError → String
  | missingArgument name => name
  | typeMismatch name _ _ => name

namespace ArgumentChecker

variable {checker : ArgumentChecker} {template : Template} {argument : Argument} {name : String}
  {bindings : Bindings} {parameters : List (String × String)}

/-! ## Arguments without a value -/

/-- A declared argument is found under its name. -/
theorem argument?_of_mem (h : template.Ordered) (hargument : argument ∈ template.arguments) :
    template.argument? argument.name = some argument := by
  obtain ⟨found, hfound⟩ : ∃ found, template.argument? argument.name = some found :=
    Option.isSome_iff_exists.mp (List.find?_isSome.mpr ⟨argument, hargument, by simp⟩)
  have hname : found.name = argument.name := by simpa using List.find?_some hfound
  rw [hfound, List.inj_on_of_nodup_map h.nodup (List.mem_of_find?_eq_some hfound) hargument hname]

/-- A parameter leaves an argument without a value if it is for another one, or if its value cannot be
read. -/
theorem get?_bindParameter_eq_none_iff (hfound : template.argument? name = some argument)
    (outcome : BindingOutcome) (parameter : String × String) :
    (checker.bindParameter template outcome parameter).bindings.get? name = none ↔
      outcome.bindings.get? name = none ∧ (Template.withoutSigils parameter.1 = name →
        ∃ error, readValue name parameter.2 argument.type (template.prefixes checker.prefixes) =
          .error error) := by
  unfold bindParameter
  dsimp only
  by_cases hname : Template.withoutSigils parameter.1 = name
  · rw [hname, hfound]
    dsimp only
    cases hread : readValue name parameter.2 argument.type (template.prefixes checker.prefixes) with
    | ok term => simp [SortedMap.get?_insert]
    | error error => simp
  · have hother : ∀ term, (outcome.bindings.insert (Template.withoutSigils parameter.1) term).get? name =
        outcome.bindings.get? name := fun term => by
      rw [SortedMap.get?_insert, if_neg (Ne.symm hname)]
    rw [and_iff_left (fun h => absurd h hname)]
    split
    · split
      · rfl
      · rfl
    · split
      · rw [hother]
      · rfl

theorem get?_foldl_bindParameter_eq_none_iff (hfound : template.argument? name = some argument)
    (outcome : BindingOutcome) (parameters : List (String × String)) :
    (parameters.foldl (checker.bindParameter template) outcome).bindings.get? name = none ↔
      outcome.bindings.get? name = none ∧ ∀ parameter ∈ parameters,
        Template.withoutSigils parameter.1 = name →
        ∃ error, readValue name parameter.2 argument.type (template.prefixes checker.prefixes) =
          .error error := by
  induction parameters generalizing outcome with
  | nil => simp
  | cons parameter parameters ih =>
      rw [List.foldl_cons, ih, get?_bindParameter_eq_none_iff hfound, List.forall_mem_cons, and_assoc]

theorem get?_bindDefault_eq_none_iff (bindings : Bindings) (argument : Argument) :
    (bindDefault bindings argument).get? name = none ↔
      bindings.get? name = none ∧ (argument.name = name → argument.default = none) := by
  unfold bindDefault
  cases hdefault : argument.default with
  | none => simp
  | some term =>
      dsimp only
      by_cases hname : argument.name = name
      · subst hname
        cases hget : bindings.get? argument.name with
        | none => simp [SortedMap.contains, hget, SortedMap.get?_insert]
        | some value => simp [SortedMap.contains, hget]
      · split
        · simp [hname]
        · rw [SortedMap.get?_insert, if_neg (Ne.symm hname)]
          simp [hname]

theorem get?_foldl_bindDefault_eq_none_iff (bindings : Bindings) (arguments : List Argument) :
    (arguments.foldl bindDefault bindings).get? name = none ↔
      bindings.get? name = none ∧ ∀ argument ∈ arguments, argument.name = name →
        argument.default = none := by
  induction arguments generalizing bindings with
  | nil => simp
  | cons argument arguments ih =>
      rw [List.foldl_cons, ih, get?_bindDefault_eq_none_iff, List.forall_mem_cons, and_assoc]

/-- An argument stays without a value if it has no default, and no value for it can be read. -/
theorem get?_createBindings_eq_none_iff (h : template.Ordered) (hargument : argument ∈ template.arguments) :
    (checker.createBindings template parameters).bindings.get? argument.name = none ↔
      argument.default = none ∧ ∀ parameter ∈ parameters,
        Template.withoutSigils parameter.1 = argument.name →
        ∃ error, readValue argument.name parameter.2 argument.type
          (template.prefixes checker.prefixes) = .error error := by
  have hsame : (∀ other ∈ template.arguments, other.name = argument.name → other.default = none) ↔
      argument.default = none := by
    refine ⟨fun hall => hall argument hargument rfl, fun hnone other hother hname => ?_⟩
    rwa [List.inj_on_of_nodup_map h.nodup hother hargument hname]
  have hempty : BindingOutcome.empty.bindings.get? argument.name = none := rfl
  rw [createBindings]
  dsimp only
  rw [get?_foldl_bindDefault_eq_none_iff,
    get?_foldl_bindParameter_eq_none_iff (argument?_of_mem h hargument), hsame, and_comm,
    and_iff_right hempty]

/-! ## Values of their types -/

/-- A value of a datatype is judged to be of the datatype. -/
theorem satisfies_of_isDatatype {type : Iri} {value : Term} (h : value.HasType type)
    (hdatatype : Datatype.isDatatype type) : checker.satisfies value type := by
  cases h with
  | string htype value =>
      rcases htype with rfl | rfl
      · simp [satisfies]
      · simp [satisfies, Literal.plain, Literal.datatype]
        decide
  | typed _ hother hlexical =>
      have hproper : ¬ type.text = stringDatatype := fun htext => hother (.inr (Iri.ext_text htext))
      simp [satisfies, Literal.typed, hproper, Literal.datatype]
  | resource hclass value =>
      rw [hclass] at hdatatype
      cases hdatatype

/-- A resource is judged by its class, unless that is the class of all resources. -/
theorem satisfies_iri_eq_false_iff {type value : Iri} : checker.satisfies (.iri value) type = false ↔
    type ≠ Vocabulary.rdfsResource ∧ checker.isA value.text type.text = false := by
  simp [satisfies]

theorem validateArgument_eq_missing_iff : checker.validateArgument bindings argument =
      some (.missingArgument name) ↔
    argument.name = name ∧ argument.optional = false ∧ bindings.get? argument.name = none := by
  unfold validateArgument
  cases bindings.get? argument.name with
  | none => cases argument.optional <;> simp
  | some value =>
      dsimp only
      split
      · simp
      · split <;> simp

theorem validateArgument_eq_mismatch_iff {text expected : String} :
    checker.validateArgument bindings argument = some (.typeMismatch name text expected) ↔
      argument.name = name ∧ ∃ type value, argument.type = some type ∧ type.text = expected ∧
        bindings.get? argument.name = some value ∧ value.text = text ∧
        checker.satisfies value type = false := by
  unfold validateArgument
  cases bindings.get? argument.name with
  | none => cases argument.optional <;> simp
  | some value =>
      cases argument.type with
      | none => simp
      | some type =>
          dsimp only
          cases hjudged : checker.satisfies value type with
          | true => simp [hjudged]
          | false =>
              simp [hjudged]
              tauto

theorem argument_of_validateArgument {error : ValidationError}
    (h : checker.validateArgument bindings argument = some error) : error.argument = argument.name := by
  cases error with
  | missingArgument name => exact (validateArgument_eq_missing_iff.mp h).1.symm
  | typeMismatch name text expected => exact (validateArgument_eq_mismatch_iff.mp h).1.symm

/-- The value of a declared argument is of its type. -/
theorem hasType_of_get? (hbuilt : template.Built) (hargument : argument ∈ template.arguments)
    {type : Iri} (htype : argument.type = some type) {value : Term}
    (hvalue : (checker.createBindings template parameters).bindings.get? argument.name = some value) :
    value.HasType type := by
  obtain ⟨other, hother, hname, raw, prefixes, hread⟩ :=
    valuesOf_createBindings hbuilt checker parameters argument.name value hvalue
  have hsame := List.inj_on_of_nodup_map hbuilt.ordered.nodup hother hargument hname
  rw [hsame, htype] at hread
  exact Argument.hasType_of_readValue hread

/-- What is wrong with bindings that were made of raw parameters, for any checker. An argument is missing
if it must not be left out, has no default and gets no value that can be read. A value is of the wrong
type only if the type is a class other than that of all resources, and the resource that was read does
not belong to it. No argument has two errors, and they are in the order of names. -/
theorem validate_createBindings (hbuilt : template.Built) (checker : ArgumentChecker)
    (parameters : List (String × String)) :
    let bindings := (checker.createBindings template parameters).bindings
    let errors := checker.validate template bindings
    (∀ name, .missingArgument name ∈ errors ↔ ∃ argument ∈ template.arguments,
      argument.name = name ∧ argument.optional = false ∧ argument.default = none ∧
        ∀ parameter ∈ parameters, Template.withoutSigils parameter.1 = name →
          ∃ error, readValue name parameter.2 argument.type (template.prefixes checker.prefixes) =
            .error error) ∧
      (∀ name text expected, .typeMismatch name text expected ∈ errors ↔
        ∃ argument ∈ template.arguments, argument.name = name ∧
          ∃ type value : Iri, argument.type = some type ∧ type.text = expected ∧
            bindings.get? name = some (.iri value) ∧ (Term.iri value).text = text ∧
            Datatype.isDatatype type = false ∧ type ≠ Vocabulary.rdfsResource ∧
            checker.isA value.text type.text = false) ∧
      errors.Pairwise (fun a b => a.argument < b.argument) ∧
      ∀ error ∈ errors, ∃ argument ∈ template.arguments, argument.name = error.argument := by
  intro bindings errors
  refine ⟨fun name => ?_, fun name text expected => ?_, ?_, fun error herror => ?_⟩
  · refine List.mem_filterMap.trans (exists_congr fun argument => and_congr_right fun hargument => ?_)
    rw [validateArgument_eq_missing_iff]
    refine and_congr_right fun hname => and_congr_right fun _ => ?_
    subst hname
    exact get?_createBindings_eq_none_iff hbuilt.ordered hargument
  · refine List.mem_filterMap.trans (exists_congr fun argument => and_congr_right fun hargument => ?_)
    rw [validateArgument_eq_mismatch_iff]
    refine and_congr_right fun hname => exists_congr fun type => ?_
    subst hname
    constructor
    · rintro ⟨value, htype, hexpected, hvalue, htext, hjudged⟩
      have hvalued := hasType_of_get? hbuilt hargument htype hvalue
      have hclass : Datatype.isDatatype type = false := by
        rw [← Bool.not_eq_true]
        intro hdatatype
        rw [satisfies_of_isDatatype hvalued hdatatype] at hjudged
        cases hjudged
      obtain ⟨found, rfl⟩ := hvalued.exists_iri hclass
      obtain ⟨hne, hisA⟩ := satisfies_iri_eq_false_iff.mp hjudged
      exact ⟨found, htype, hexpected, hvalue, htext, hclass, hne, hisA⟩
    · rintro ⟨value, htype, hexpected, hvalue, htext, hclass, hne, hisA⟩
      exact ⟨.iri value, htype, hexpected, hvalue, htext, satisfies_iri_eq_false_iff.mpr ⟨hne, hisA⟩⟩
  · refine hbuilt.ordered.ascending.filterMap _ fun a b hlt error herror error' herror' => ?_
    rwa [argument_of_validateArgument herror, argument_of_validateArgument herror']
  · obtain ⟨argument, hargument, hjudged⟩ := List.mem_filterMap.mp herror
    exact ⟨argument, hargument, (argument_of_validateArgument hjudged).symm⟩

/-- The query over the last hour of a stream, with its predicate as an argument that must be a window. -/
def windowTemplate : Template where
  handle := TemplateLibrary.knowsTemplate.handle
  body := Query.hourly
  arguments := [⟨"p", some Vocabulary.logicalWindow, false, none, none, none⟩]
  label := none
  comment := none

theorem windowTemplate_built : windowTemplate.Built := by
  refine @Template.Built.declare _ _ (.ofQuery TemplateLibrary.ofQuery_knows)
    ⟨"p", some Vocabulary.logicalWindow.bracketed, none, false, none, none⟩ PrefixMapping.standard ?_
  refine bind_eq_ok_iff.mpr ⟨(), TemplateLibrary.checkName_hourly rfl rfl, ?_⟩
  refine bind_eq_ok_iff.mpr ⟨some Vocabulary.logicalWindow, by decide +kernel, ?_⟩
  exact congrArg (fun arguments => Except.ok { windowTemplate with arguments := arguments })
    (List.mergeSort_singleton _)

/-- The argument is missing if its value is no resource, and of the wrong type if it is another one. -/
theorem validate_createBindings_window :
    let errors := fun parameters => standard.validate windowTemplate
      (standard.createBindings windowTemplate parameters).bindings
    windowTemplate.Built ∧ .missingArgument "p" ∈ errors [("q", "http://a/s"), ("?p", "no resource")] ∧
      .typeMismatch "p" Vocabulary.rdfsLiteral.bracketed Vocabulary.logicalWindow.text ∈
        errors [("$p", Vocabulary.rdfsLiteral.text), ("p", "no resource")] := by
  intro errors
  refine ⟨windowTemplate_built, ?_, ?_⟩
  · obtain ⟨hmissing, -⟩ := validate_createBindings windowTemplate_built standard
      [("q", "http://a/s"), ("?p", "no resource")]
    refine (hmissing "p").mpr ⟨_, List.mem_cons_self, rfl, rfl, rfl, fun parameter hparameter hname => ?_⟩
    rcases List.mem_pair.mp hparameter with rfl | rfl
    · exact absurd hname (by decide)
    · exact ⟨.invalidResource "p" "no resource", by decide +kernel⟩
  · obtain ⟨-, hmismatch, -⟩ := validate_createBindings windowTemplate_built standard
      [("$p", Vocabulary.rdfsLiteral.text), ("p", "no resource")]
    refine (hmismatch "p" _ _).mpr ⟨_, List.mem_cons_self, rfl, Vocabulary.logicalWindow,
      Vocabulary.rdfsLiteral, rfl, rfl, ?_, rfl, by decide, by decide, by decide⟩
    decide +kernel

end ArgumentChecker

end StreamQuery
