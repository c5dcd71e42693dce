import StreamQuery.Proofs.Codec.Mentions
import StreamQuery.Proofs.Template.Bindings
import StreamQuery.Template.Declare

/-! # Declarations in place

A declaration that fails leaves the template alone, and one that does not adds an argument. So whatever
comes of declarations, all arguments of the template are declared variables of its query, in the order of
their names and with defaults of their types.
-/

namespace StreamQuery

/-- The values of a type: of `xsd:string` and of `rdfs:Literal` a plain string, of another datatype a
literal of that datatype in one of its lexical forms, and of a class a resource. -/
inductive Term.HasType (type : Iri) : Term → Prop where
  | string (htype : type = Vocabulary.rdfsLiteral ∨ type = Vocabulary.xsdString) (value : String) :
      HasType type (.literal (.plain value))
  | typed (hdatatype : Datatype.isDatatype type)
      (hother : ¬ (type = Vocabulary.rdfsLiteral ∨ type = Vocabulary.xsdString)) {value : String}
      (hlexical : Datatype.isLexical type value) : HasType type (.literal (.typed value type.text))
  | resource (hclass : Datatype.isDatatype type = false) (value : Iri) : HasType type (.iri value)

/-- The values of a class are resources. -/
theorem Term.HasType.exists_iri {type : Iri} {value : Term} (h : value.HasType type)
    (hclass : Datatype.isDatatype type = false) : ∃ found, value = .iri found := by
  cases h with
  | string htype value =>
      rcases htype with rfl | rfl
      · exact absurd hclass (by decide)
      · exact absurd hclass (by decide)
  | typed hdatatype hother hlexical =>
      rw [hclass] at hdatatype
      cases hdatatype
  | resource _ found => exact ⟨found, rfl⟩

theorem Argument.hasType_of_readValue {name raw : String} {type : Iri} {prefixes : PrefixMapping}
    {term : Term} (h : readValue name raw (some type) prefixes = .ok term) : term.HasType type := by
  unfold readValue at h
  dsimp only at h
  split at h
  · next hclass =>
    obtain ⟨value, rfl⟩ := exists_iri_of_readResource h
    exact .resource ((Bool.not_eq_true' _).mp hclass) value
  · next hdatatype =>
    split at h
    · next hstring =>
      cases h
      exact .string hstring _
    · next hother =>
      split at h
      · next hlexical =>
        cases h
        exact .typed (by simpa using hdatatype) hother hlexical
      · cases h

namespace Template

variable {template template' : Template} {name : String}

/-- A variable of a query that can be an argument is not among the results, so it is in the pattern, in a
window or the output stream. -/
theorem Free.occurs {body : Query} (h : Free body name) :
    name ∈ body.body.patternVariables ∨ name ∈ body.streamVariables := by
  obtain ⟨_, -, hoccurs⟩ := bind_eq_ok_iff.mp h.1
  exact (body.hasVariable_iff Encoding.numbered_injective).mp (Except.ok.inj hoccurs)

/-- A declaration in place adds what a declaration adds, and leaves the template alone if it fails. -/
theorem receive_eq (template : Template) (declaration : Declaration) (others : PrefixMapping) :
    template.receive declaration others =
      match template.declareWith declaration others with
      | .ok declared => (.ok (), declared)
      | .error error => (.error error, template) := by
  rw [receive, Declaring.declare, run_get_bind, declareWith]
  dsimp only
  cases hname : template.checkName (withoutSigils declaration.name) with
  | error error => exact run_bind_of_error (run_liftM _ _) _
  | ok u =>
      rw [run_bind_of_ok (run_liftM _ _)]
      cases htype : declaredType (template.prefixes others) declaration.type with
      | error error => exact run_bind_of_error (run_liftM _ _) _
      | ok type =>
          rw [run_bind_of_ok (run_liftM _ _)]
          dsimp only [ok_bind]
          cases hdefault : declaredDefault (withoutSigils declaration.name) type
              (template.prefixes others) declaration.default with
          | error error => exact run_bind_of_error (run_liftM _ _) _
          | ok default =>
              rw [run_bind_of_ok (run_liftM _ _)]
              rfl

/-- A declaration that fails leaves the template alone. -/
theorem receive_of_error {declaration : Declaration} {others : PrefixMapping} {error : TemplateError}
    (h : template.receive declaration others = (.error error, template')) : template' = template := by
  rw [receive_eq] at h
  split at h
  · cases h
  · cases h
    rfl

/-- Whatever comes of a declaration, a built template is a built template of the same query. -/
theorem Built.receive (h : template.Built) (declaration : Declaration) (others : PrefixMapping) :
    (template.receive declaration others).2.Built ∧
      (template.receive declaration others).2.body = template.body := by
  rw [receive_eq]
  split
  · next declared hdeclare =>
    obtain ⟨argument, -, -, rfl⟩ := declareWith_eq_ok hdeclare
    exact ⟨h.declare hdeclare, rfl⟩
  · exact ⟨h, rfl⟩

theorem Built.after (h : template.Built) (declarations : List (Declaration × PrefixMapping)) :
    (template.after declarations).Built ∧ (template.after declarations).body = template.body := by
  induction declarations generalizing template with
  | nil => exact ⟨h, rfl⟩
  | cons declaration declarations ih =>
      obtain ⟨hnext, hbody⟩ := h.receive declaration.1 declaration.2
      obtain ⟨hlast, hsame⟩ := ih hnext
      exact ⟨hlast, hsame.trans hbody⟩

theorem Built.hasType_default (h : template.Built) {argument : Argument}
    (hargument : argument ∈ template.arguments) {type : Iri} {value : Term}
    (htype : argument.type = some type) (hvalue : argument.default = some value) :
    value.HasType type := by
  obtain ⟨⟨declaration, others, hwritten⟩, -⟩ := h.written_and_free argument hargument
  have hread := hwritten.default
  rw [hvalue, htype, Argument.declaredDefault_eq_ok_some_iff] at hread
  obtain ⟨raw, -, hraw⟩ := hread
  exact Argument.hasType_of_readValue hraw

/-- After any declarations for a template of a query, its arguments are in the strict order of their names.
Each name is made of letters, digits and underscores, is a variable in the pattern, in a window or the
output stream, and is not among the results. Each default is of its type. And a declaration that fails
leaves the template alone. -/
theorem arguments_after {body : Query} {handle : String} {made : Template}
    (h : ofQuery body handle = .ok made) (declarations : List (Declaration × PrefixMapping)) :
    let template := made.after declarations
    template.arguments.Pairwise (fun a b => a.name < b.name) ∧
      (∀ argument ∈ template.arguments,
        argument.name ≠ "" ∧ (∀ c ∈ argument.name.toList, c.isAlphanum ∨ c = '_') ∧
        (argument.name ∈ body.body.patternVariables ∨
          (∃ window ∈ body.windows, ∃ term ∈ window.terms, term.variableName? = some argument.name) ∨
          ∃ stream, body.output = some stream ∧ stream.variableName? = some argument.name) ∧
        argument.name ∉ body.body.projectedVariables ∧
        ∀ type value, argument.type = some type → argument.default = some value →
          value.HasType type) ∧
      ∀ declaration others error next,
        template.receive declaration others = (.error error, next) → next = template := by
  intro template
  obtain ⟨iri, -, rfl⟩ := ofQuery_eq_ok_iff.mp h
  obtain ⟨hbuilt, hbody⟩ := (Built.ofQuery h).after declarations
  refine ⟨hbuilt.ordered.ascending, fun argument hargument => ?_, fun declaration others error next =>
    receive_of_error⟩
  have hfree := (hbuilt.written_and_free argument hargument).2
  rw [hbody] at hfree
  have hname := hbuilt.ordered.names argument hargument
  rw [isArgumentName, Bool.and_eq_true, List.all_eq_true] at hname
  refine ⟨?_, fun c hc => by simpa using hname.2 c hc, ?_, hfree.not_mem_projectedVariables,
    fun type value => hbuilt.hasType_default hargument⟩
  · intro hempty
    simp [hempty] at hname
  · refine hfree.occurs.imp_right fun hstream => ?_
    obtain ⟨term, hterm, hvariable⟩ := List.mem_filterMap.mp hstream
    rcases List.mem_append.mp hterm with hwindow | houtput
    · obtain ⟨window, hmem, hin⟩ := List.mem_flatMap.mp hwindow
      exact .inl ⟨window, hmem, term, hin, hvariable⟩
    · exact .inr ⟨term, Option.mem_toList.mp houtput, hvariable⟩

/-- The predicate of the query over the last hour of a stream is declared, but not twice. -/
theorem arguments_after_predicate :
    let made : Template := ⟨TemplateLibrary.knowsTemplate.handle, Query.hourly, [], none, none⟩
    let declaration := (TemplateLibrary.predicateDeclaration, PrefixMapping.standard)
    let template := made.after [declaration, declaration]
    ofQuery Query.hourly "<http://w3id.org/rsp/templates/knows>" = .ok made ∧
      template.arguments = TemplateLibrary.knowsTemplate.arguments ∧
      ∀ argument ∈ template.arguments, argument.name ∉ Query.hourly.body.projectedVariables ∧
        ∀ type value, argument.type = some type → argument.default = some value →
          value.HasType type := by
  intro made declaration template
  have hmade := TemplateLibrary.ofQuery_knows
  obtain ⟨-, harguments, -⟩ := arguments_after hmade [declaration, declaration]
  have hfirst : made.receive TemplateLibrary.predicateDeclaration PrefixMapping.standard =
      (.ok (), { made with arguments := TemplateLibrary.knowsTemplate.arguments }) := by
    rw [receive_eq, TemplateLibrary.declareWith_predicate rfl rfl]
  have hsecond : ∃ error, ({ made with arguments := TemplateLibrary.knowsTemplate.arguments }).receive
      TemplateLibrary.predicateDeclaration PrefixMapping.standard = (.error error,
        { made with arguments := TemplateLibrary.knowsTemplate.arguments }) := by
    rw [receive_eq]
    exact ⟨_, rfl⟩
  obtain ⟨error, hsecond⟩ := hsecond
  refine ⟨hmade, ?_, fun argument hargument => ?_⟩
  · change ((made.receive _ _).2.receive _ _).2.arguments = _
    rw [hfirst, hsecond]
  · obtain ⟨-, -, -, hprojected, htype⟩ := harguments argument hargument
    exact ⟨hprojected, htype⟩

end Template

end StreamQuery
