import Mathlib.Data.List.DropRight
import StreamQuery.Proofs.Template.Handle
import StreamQuery.Proofs.Template.Persistence
import StreamQuery.Proofs.Token.Segment
import StreamQuery.Template.Document

/-! # Templates as documents

A document has the handle of a template, and the types and defaults of its arguments, as bare texts. It
gives the template back just if each of these IRIs is read as itself where it stands without brackets.
-/

namespace StreamQuery

open Text

/-! ### White space -/

theorem dropWhile_trim (cs : List Char) : (trim cs).dropWhile isBlank = trim cs := by
  cases htrim : trim cs with
  | nil => rfl
  | cons c rest =>
      obtain ⟨tail, htail⟩ : trim cs <+: cs.dropWhile isBlank := List.rdropWhile_prefix _ _
      have hfirst := List.head?_dropWhile_not isBlank cs
      rw [← htail, htrim] at hfirst
      exact List.dropWhile_cons_of_neg (by simpa using hfirst)

theorem trimmed_trimmed (text : String) : trimmed (trimmed text) = trimmed text := by
  have hright : (trim text.toList).rdropWhile isBlank = trim text.toList :=
    List.rdropWhile_idempotent _ _
  rw [trimmed, trimmed, String.toList_ofList, trim, dropWhile_trim]
  exact congrArg String.ofList hright

/-- Nothing remains of white space, and of nothing else. -/
theorem isBlank_of_trimmed_eq_empty {text : String} (h : trimmed text = "") :
    ∀ c ∈ text.toList, isBlank c := by
  rw [trimmed, ← String.toList_inj, String.toList_ofList] at h
  intro c hc
  rw [← List.takeWhile_append_dropWhile (p := isBlank) (l := text.toList), List.mem_append] at hc
  rcases hc with hc | hc
  · exact Lexeme.mem_takeWhile c hc
  · exact List.rdropWhile_eq_nil_iff.mp h c hc

/-- A text with a query in it is more than white space. -/
theorem Query.trimmed_ne_empty_of_parse {text : String} {query : Query} (h : Query.parse text = .ok query) :
    trimmed text ≠ "" := by
  intro hempty
  obtain ⟨_, hread, -⟩ := bind_eq_ok_iff.mp h
  obtain ⟨tokens, htokens, hread⟩ := bind_eq_ok_iff.mp hread
  rw [mapError_eq_ok_iff, Token.read_eq_ok_iff] at htokens
  obtain rfl := Token.eq_nil_of_whiteSpace (isBlank_of_trimmed_eq_empty hempty) htokens
  cases hread

theorem Iri.trimmed_text_ne_empty (iri : Iri) : trimmed iri.text ≠ "" := by
  obtain ⟨first, others, rest, heq, -⟩ := iri.exists_trimmed
  intro hempty
  rw [hempty] at heq
  cases heq

/-! ### One argument -/

namespace Argument

/-- An argument as it is written in a document. -/
def declaration (argument : Argument) : Declaration where
  name := argument.name
  type := argument.type.map Iri.text
  default := argument.default.map TemplateDocument.rawValue
  optional := argument.optional
  label := argument.label
  comment := argument.comment

/-- An argument that is just what a declaration says. -/
structure DeclaredBy (declaration : Declaration) (prefixes : PrefixMapping) (argument : Argument) : Prop where
  name : argument.name = Template.withoutSigils declaration.name
  type : Template.declaredType prefixes declaration.type = .ok argument.type
  default : Template.declaredDefault argument.name argument.type prefixes declaration.default =
    .ok argument.default
  optional : argument.optional = declaration.optional
  label : argument.label = declaration.label
  comment : argument.comment = declaration.comment

/-- The IRI of a type is read as itself without brackets: it stands for itself, and it is taken for an
IRI, which is recognised by a known label or by two slashes. -/
def KeepsType (prefixes : PrefixMapping) (type : Iri) : Prop :=
  prefixes.expand (trimmed type.text) = type.text ∧
    ((prefixes.expand? (trimmed type.text)).isSome ∨
      Template.resolveType?.isFull (trimmed type.text).toList)

/-- The IRI of a default is read as itself without brackets. -/
def KeepsDefault (prefixes : PrefixMapping) (value : Iri) : Prop :=
  prefixes.expand (trimmed value.text) = value.text

/-- The IRIs of an argument are read as themselves. -/
structure Kept (prefixes : PrefixMapping) (argument : Argument) : Prop where
  type : ∀ type, argument.type = some type → KeepsType prefixes type
  default : ∀ value, argument.default = some (.iri value) → KeepsDefault prefixes value

variable {argument : Argument} {name raw : String} {type : Option Iri} {prefixes : PrefixMapping}

theorem isFull_of_authority (scheme rest : List Char) :
    Template.resolveType?.isFull (scheme ++ ':' :: '/' :: '/' :: rest) := by
  induction scheme with
  | nil => simp [Template.resolveType?.isFull, after?]
  | cons c scheme ih => rw [List.cons_append, Template.resolveType?.isFull, ih, Bool.or_true]

/-- With an authority behind its scheme, and without white space at its end, an IRI is read as itself. -/
theorem keeps_of_authority {iri : Iri} {scheme rest : List Char} (hscheme : ':' ∉ scheme)
    (htext : iri.text.toList = scheme ++ ':' :: '/' :: '/' :: rest) (hend : trimmed iri.text = iri.text) :
    KeepsType prefixes iri ∧ KeepsDefault prefixes iri := by
  have hexpand : prefixes.expand? iri.text = none := by
    rw [PrefixMapping.expand?, htext, PrefixMapping.splitFirst_append hscheme]
    rfl
  have hkept : prefixes.expand iri.text = iri.text := by
    rw [PrefixMapping.expand, hexpand, Option.getD_none]
  rw [KeepsType, KeepsDefault, hend, htext]
  exact ⟨⟨hkept, .inr (isFull_of_authority scheme rest)⟩, hkept⟩

theorem readResource_text_eq_ok_iff (value : Iri) :
    readResource name value.text prefixes = .ok (.iri value) ↔ KeepsDefault prefixes value := by
  unfold readResource KeepsDefault
  dsimp only
  rw [value.withoutBrackets_trimmed, Option.getD_none]
  split
  · next found hfound =>
    rw [← Iri.text_of_ofString? hfound]
    exact ⟨fun h => congrArg Iri.text (Term.iri.inj (Except.ok.inj h)),
      fun h => congrArg (Except.ok ∘ Term.iri) (Iri.ext_text h)⟩
  · next hnone =>
    refine iff_of_false nofun fun h => ?_
    rw [h, Iri.ofString?_text] at hnone
    cases hnone

theorem ofString?_eq_some_iff {text : String} {iri : Iri} : Iri.ofString? text = some iri ↔ text = iri.text :=
  ⟨fun h => (Iri.text_of_ofString? h).symm, fun h => h ▸ Iri.ofString?_text iri⟩

theorem resolveType?_text_eq_some_iff (type : Iri) :
    Template.resolveType? type.text prefixes = some type ↔ KeepsType prefixes type := by
  unfold Template.resolveType? KeepsType PrefixMapping.expand
  dsimp only
  rw [type.withoutBrackets_trimmed]
  cases prefixes.expand? (trimmed type.text) with
  | some full => simp [ofString?_eq_some_iff]
  | none =>
      dsimp only
      split
      · next hfull => simp [ofString?_eq_some_iff, hfull]
      · next hnot => simp [hnot]

theorem exists_iri_of_readResource {term : Term} (h : readResource name raw prefixes = .ok term) :
    ∃ value, term = .iri value := by
  unfold readResource at h
  dsimp only at h
  split at h
  · cases h
    exact ⟨_, rfl⟩
  · cases h

/-- What is read is a resource, and then all resources are read in the same way, or a literal, and then
its lexical form is read as that literal again. -/
theorem readValue_cases {term : Term} (h : readValue name raw type prefixes = .ok term) :
    ((∃ found, term = .iri found) ∧ ∀ other value, readValue name other type prefixes = .ok (.iri value) ↔
        readResource name other prefixes = .ok (.iri value)) ∨
      ∃ l, term = .literal l ∧ readValue name l.value type prefixes = .ok (.literal l) := by
  unfold readValue at h ⊢
  cases type with
  | none =>
      dsimp only at h ⊢
      split at h
      · next found hfound =>
        cases h
        refine .inl ⟨exists_iri_of_readResource hfound, fun other value => ?_⟩
        cases readResource name other prefixes <;> simp
      · next error herror =>
        cases h
        exact .inr ⟨_, rfl, by simp only [Literal.plain, herror]⟩
  | some type =>
      dsimp only at h ⊢
      by_cases hclass : !Datatype.isDatatype type
      · rw [if_pos hclass] at h
        exact .inl ⟨exists_iri_of_readResource h, fun _ _ => by rw [if_pos hclass]⟩
      by_cases hstring : type = Vocabulary.rdfsLiteral ∨ type = Vocabulary.xsdString
      · simp only [hclass, hstring, if_true, if_false, Bool.false_eq_true] at h ⊢
        cases h
        exact .inr ⟨_, rfl, rfl⟩
      simp only [hclass, hstring, if_false, Bool.false_eq_true] at h ⊢
      split at h
      · next hlexical =>
        cases h
        exact .inr ⟨_, rfl, by rw [Literal.value_typed, trimmed_trimmed, if_pos hlexical]⟩
      · cases h

/-- The default of an argument is read again from what it was read from, unless it is an IRI that does
not stand for itself. -/
theorem readValue_rawValue_eq_ok_iff {term : Term} (h : readValue name raw type prefixes = .ok term) :
    readValue name (TemplateDocument.rawValue term) type prefixes = .ok term ↔
      ∀ value, term = .iri value → KeepsDefault prefixes value := by
  rcases readValue_cases h with ⟨⟨found, rfl⟩, hresource⟩ | ⟨l, rfl, hliteral⟩
  · rw [hresource]
    refine (readResource_text_eq_ok_iff found).trans ⟨?_, fun hkept => hkept found rfl⟩
    rintro hkept _ ⟨⟩
    exact hkept
  · exact iff_of_true hliteral nofun

theorem withoutSigils_of_isArgumentName (h : Template.isArgumentName name) :
    Template.withoutSigils name = name := by
  rw [Template.isArgumentName, Bool.and_eq_true, List.all_eq_true] at h
  have hkeep : name.toList.dropWhile (fun c => c == '?' || c == '$') = name.toList := by
    cases hname : name.toList with
    | nil => rfl
    | cons first rest =>
        have hfirst := h.2 first (hname ▸ List.mem_cons_self)
        refine List.dropWhile_cons_of_neg fun hsigil => ?_
        rw [Bool.or_eq_true, beq_iff_eq, beq_iff_eq] at hsigil
        rcases hsigil with rfl | rfl
        · exact absurd hfirst (by decide)
        · exact absurd hfirst (by decide)
  rw [Template.withoutSigils, hkeep, String.ofList_toList]

theorem declaredType_eq_ok_some_iff {written : Option String} {type : Iri} :
    Template.declaredType prefixes written = .ok (some type) ↔
      ∃ raw, written = some raw ∧ Template.resolveType? raw prefixes = some type := by
  cases written with
  | none => simp [Template.declaredType]
  | some raw =>
      simp only [Template.declaredType, Option.some.injEq, exists_eq_left']
      cases Template.resolveType? raw prefixes <;> simp

theorem declaredDefault_eq_ok_some_iff {written : Option String} {term : Term} :
    Template.declaredDefault name type prefixes written = .ok (some term) ↔
      ∃ raw, written = some raw ∧ readValue name raw type prefixes = .ok term := by
  cases written with
  | none => simp [Template.declaredDefault]
  | some raw =>
      simp only [Template.declaredDefault, Option.some.injEq, exists_eq_left']
      cases readValue name raw type prefixes <;> simp

/-- An argument is declared again by what is written of it, if its IRIs are read as themselves. -/
theorem declaredBy_declaration_iff {written : Declaration} (hname : Template.isArgumentName argument.name)
    (h : argument.DeclaredBy written prefixes) :
    argument.DeclaredBy argument.declaration prefixes ↔ argument.Kept prefixes := by
  have htype : Template.declaredType prefixes (argument.type.map Iri.text) = .ok argument.type ↔
      ∀ type, argument.type = some type → KeepsType prefixes type := by
    cases argument.type with
    | none => exact iff_of_true rfl nofun
    | some type =>
        rw [declaredType_eq_ok_some_iff, Option.map_some]
        simp [resolveType?_text_eq_some_iff]
  have hdefault : Template.declaredDefault argument.name argument.type prefixes
      (argument.default.map TemplateDocument.rawValue) = .ok argument.default ↔
        ∀ value, argument.default = some (.iri value) → KeepsDefault prefixes value := by
    have hread := h.default
    cases hterm : argument.default with
    | none => exact iff_of_true rfl nofun
    | some term =>
        rw [hterm] at hread
        obtain ⟨raw, -, hraw⟩ := declaredDefault_eq_ok_some_iff.mp hread
        rw [declaredDefault_eq_ok_some_iff, Option.map_some]
        simpa using readValue_rawValue_eq_ok_iff hraw
  constructor
  · exact fun hagain => ⟨htype.mp hagain.type, hdefault.mp hagain.default⟩
  · exact fun hkept => ⟨(withoutSigils_of_isArgumentName hname).symm, htype.mpr hkept.type,
      hdefault.mpr hkept.default, rfl, rfl, rfl⟩

end Argument

/-! ### All arguments -/

namespace Template

variable {template template' : Template} {name : String} {others : PrefixMapping}

/-- Templates that were made of a query, and got their arguments with one set of prefixes. -/
inductive BuiltWith (others : PrefixMapping) : Template → Prop where
  | ofQuery {body : Query} {handle : String} {template : Template}
      (h : Template.ofQuery body handle = .ok template) : BuiltWith others template
  | label {template : Template} (h : BuiltWith others template) (label : String) :
      BuiltWith others { template with label := some label }
  | comment {template : Template} (h : BuiltWith others template) (comment : String) :
      BuiltWith others { template with comment := some comment }
  | declare {template template' : Template} (h : BuiltWith others template) {declaration : Declaration}
      (hdeclare : template.declareWith declaration others = .ok template') : BuiltWith others template'

theorem BuiltWith.built (h : template.BuiltWith others) : template.Built := by
  induction h with
  | ofQuery h => exact .ofQuery h
  | label _ label ih => exact .label ih label
  | comment _ comment ih => exact .comment ih comment
  | declare _ hdeclare ih => exact .declare ih hdeclare

/-- A variable of a query that the query does not answer with. -/
def Free (body : Query) (name : String) : Prop :=
  Oracle.hasVariable body.graph name = .ok true ∧ Oracle.isProjected body.graph name = .ok false

theorem checkName_eq_ok_iff {u : Unit} : template.checkName name = .ok u ↔
    isArgumentName name ∧ (∀ argument ∈ template.arguments, argument.name ≠ name) ∧
      Free template.body name := by
  constructor
  · intro h
    obtain ⟨hname, hnew⟩ := new_of_checkName h
    obtain ⟨_, -, h⟩ := bind_eq_ok_iff.mp h
    obtain ⟨_, -, h⟩ := bind_eq_ok_iff.mp h
    obtain ⟨occurs, hoccurs, h⟩ := bind_eq_ok_iff.mp h
    obtain ⟨_, hdemand, h⟩ := bind_eq_ok_iff.mp h
    obtain ⟨projected, hprojected, h⟩ := bind_eq_ok_iff.mp h
    rw [demand_eq_ok_iff] at hdemand h
    rw [mapError_eq_ok_iff] at hoccurs hprojected
    refine ⟨hname, hnew, ?_, ?_⟩
    · rw [hoccurs, hdemand]
    · rw [hprojected, (Bool.not_eq_true' projected).mp h]
  · rintro ⟨hname, hnew, hoccurs, hprojected⟩
    refine bind_eq_ok_iff.mpr ⟨u, demand_eq_ok_iff.mpr hname, bind_eq_ok_iff.mpr ⟨u, ?_, ?_⟩⟩
    · rw [demand_eq_ok_iff, Option.isNone_iff_eq_none, argument?, List.find?_eq_none]
      exact fun argument hargument heq => hnew argument hargument (by simpa using heq)
    · refine bind_eq_ok_iff.mpr ⟨true, mapError_eq_ok_iff.mpr hoccurs, bind_eq_ok_iff.mpr ⟨u, rfl, ?_⟩⟩
      exact bind_eq_ok_iff.mpr ⟨false, mapError_eq_ok_iff.mpr hprojected, rfl⟩

theorem declareWith_eq_ok_iff {declaration : Declaration} :
    template.declareWith declaration others = .ok template' ↔
      ∃ argument : Argument, argument.DeclaredBy declaration (template.prefixes others) ∧
        template.checkName argument.name = .ok () ∧
        template' = { template with arguments := sortArguments (template.arguments ++ [argument]) } := by
  constructor
  · intro h
    obtain ⟨_, hname, h⟩ := bind_eq_ok_iff.mp h
    obtain ⟨type, htype, h⟩ := bind_eq_ok_iff.mp h
    obtain ⟨default, hdefault, h⟩ := bind_eq_ok_iff.mp h
    cases h
    exact ⟨⟨withoutSigils declaration.name, type, declaration.optional, default, declaration.label,
      declaration.comment⟩, ⟨rfl, htype, hdefault, rfl, rfl, rfl⟩, hname, rfl⟩
  · rintro ⟨⟨name, type, optional, default, label, comment⟩, h, hname, rfl⟩
    obtain ⟨rfl, htype, hdefault, rfl, rfl, rfl⟩ := h
    exact bind_eq_ok_iff.mpr ⟨(), hname, bind_eq_ok_iff.mpr ⟨type, htype, bind_eq_ok_iff.mpr
      ⟨default, hdefault, rfl⟩⟩⟩

/-- Every argument was declared, and is a variable of the query that the query does not answer with. -/
theorem Built.written_and_free (h : template.Built) : ∀ argument ∈ template.arguments,
    (∃ declaration others, argument.DeclaredBy declaration (template.prefixes others)) ∧
      Free template.body argument.name := by
  induction h with
  | ofQuery h =>
      obtain ⟨iri, -, rfl⟩ := ofQuery_eq_ok_iff.mp h
      nofun
  | label _ _ ih => exact ih
  | comment _ _ ih => exact ih
  | declare _ hdeclare ih =>
      obtain ⟨argument, hwritten, hname, rfl⟩ := declareWith_eq_ok_iff.mp hdeclare
      intro other hother
      rw [(sortArguments_perm _).mem_iff, List.mem_append, List.mem_singleton] at hother
      rcases hother with hother | rfl
      · exact ih other hother
      · exact ⟨⟨_, _, hwritten⟩, (checkName_eq_ok_iff.mp hname).2.2⟩

/-- What is known of the arguments that were declared with one set of prefixes. -/
structure Declared (others : PrefixMapping) (template : Template) : Prop where
  ordered : template.Ordered
  written : ∀ argument ∈ template.arguments,
    ∃ declaration, argument.DeclaredBy declaration (template.prefixes others)
  free : ∀ argument ∈ template.arguments, Free template.body argument.name

theorem BuiltWith.written (h : template.BuiltWith others) : ∀ argument ∈ template.arguments,
    ∃ declaration, argument.DeclaredBy declaration (template.prefixes others) := by
  induction h with
  | ofQuery h =>
      obtain ⟨iri, -, rfl⟩ := ofQuery_eq_ok_iff.mp h
      nofun
  | label _ _ ih => exact ih
  | comment _ _ ih => exact ih
  | declare _ hdeclare ih =>
      obtain ⟨argument, hwritten, -, rfl⟩ := declareWith_eq_ok_iff.mp hdeclare
      intro other hother
      rw [(sortArguments_perm _).mem_iff, List.mem_append, List.mem_singleton] at hother
      rcases hother with hother | rfl
      · exact ih other hother
      · exact ⟨_, hwritten⟩

theorem BuiltWith.declared (h : template.BuiltWith others) : template.Declared others where
  ordered := h.built.ordered
  written := h.written
  free argument hargument := (h.built.written_and_free argument hargument).2

/-- Declares several arguments, one after the other. -/
def declareAll (template : Template) (declarations : List Declaration) (others : PrefixMapping) :
    Except TemplateError Template :=
  declarations.foldlM (fun template declaration => template.declareWith declaration others) template

/-- Arguments that come in their order are all declared again, if each one of them can be. -/
theorem declareAll_declarations {rest : List Argument}
    (hascending : (template.arguments ++ rest).Pairwise fun a b => a.name < b.name)
    (hnames : ∀ argument ∈ rest, isArgumentName argument.name)
    (hfree : ∀ argument ∈ rest, Free template.body argument.name)
    (hagain : ∀ argument ∈ rest, argument.DeclaredBy argument.declaration (template.prefixes others)) :
    template.declareAll (rest.map Argument.declaration) others =
      .ok { template with arguments := template.arguments ++ rest } := by
  induction rest generalizing template with
  | nil =>
      rw [List.append_nil]
      rfl
  | cons argument rest ih =>
      have hstep : template.declareWith argument.declaration others =
          .ok { template with arguments := template.arguments ++ [argument] } := by
        rw [List.append_cons] at hascending
        refine declareWith_eq_ok_iff.mpr ⟨argument, hagain _ List.mem_cons_self, ?_, ?_⟩
        · refine checkName_eq_ok_iff.mpr ⟨hnames _ List.mem_cons_self, fun other hother => ?_,
            hfree _ List.mem_cons_self⟩
          have hless := (List.pairwise_append.mp (List.pairwise_append.mp hascending).1).2.2
          exact String.ne_of_lt (hless other hother argument (List.mem_singleton_self argument))
        · rw [sortArguments_of_perm (List.Perm.refl _) (List.pairwise_append.mp hascending).1]
      rw [List.append_cons] at hascending ⊢
      refine bind_eq_ok_iff.mpr ⟨_, hstep, ?_⟩
      exact ih hascending (fun other hother => hnames other (List.mem_cons_of_mem _ hother))
        (fun other hother => hfree other (List.mem_cons_of_mem _ hother))
        fun other hother => hagain other (List.mem_cons_of_mem _ hother)

/-- Declared arguments are there, each as it was written, over the same query. -/
theorem exists_declared_of_declareAll {declarations : List Declaration}
    (h : template.declareAll declarations others = .ok template') :
    template' = { template with arguments := template'.arguments } ∧
      (∀ argument ∈ template.arguments, argument ∈ template'.arguments) ∧
      ∀ declaration ∈ declarations, ∃ argument ∈ template'.arguments,
        argument.DeclaredBy declaration (template.prefixes others) := by
  induction declarations generalizing template with
  | nil =>
      cases h
      exact ⟨rfl, fun _ => id, nofun⟩
  | cons declaration rest ih =>
      obtain ⟨next, hnext, h⟩ := bind_eq_ok_iff.mp h
      obtain ⟨argument, hwritten, -, rfl⟩ := declareWith_eq_ok_iff.mp hnext
      obtain ⟨hsame, hkept, hrest⟩ := ih h
      have hmem : ∀ other ∈ template.arguments ++ [argument], other ∈ template'.arguments :=
        fun other hother => hkept other ((sortArguments_perm _).mem_iff.mpr hother)
      refine ⟨hsame, fun other hother => hmem other (List.mem_append_left _ hother), ?_⟩
      refine List.forall_mem_cons.mpr ⟨⟨argument, hmem argument ?_, hwritten⟩, hrest⟩
      exact List.mem_append_right _ (List.mem_singleton_self argument)

/-- A document is a template if it says of what query, its handle and its query can be read, and its
parameters can be declared. -/
theorem toTemplate_eq_ok_iff {document : TemplateDocument} {space : String} :
    document.toTemplate space others = .ok template' ↔
      trimmed document.id ≠ "" ∧ trimmed document.query ≠ "" ∧
      ∃ handle, TemplateHandle.resolve document.id space others = .ok handle ∧
      ∃ body, Query.parse document.query = .ok body ∧
        declareAll ⟨handle, body, [], document.label, document.comment⟩ document.parameters others =
          .ok template' := by
  have hsteps : (do
      let handle ← (TemplateHandle.resolve document.id space others).mapError TemplateError.construction
      let body ← (Query.parse document.query).mapError TemplateError.parse
      declareAll ⟨handle, body, [], document.label, document.comment⟩ document.parameters others) =
        .ok template' ↔ ∃ handle, TemplateHandle.resolve document.id space others = .ok handle ∧
          ∃ body, Query.parse document.query = .ok body ∧
            declareAll ⟨handle, body, [], document.label, document.comment⟩ document.parameters others =
              .ok template' := by
    simp only [bind_eq_ok_iff, mapError_eq_ok_iff]
  rw [← hsteps]
  unfold TemplateDocument.toTemplate
  by_cases hid : trimmed document.id = ""
  · simp only [hid, String.isEmpty_iff, if_true, ne_eq, not_true_eq_false, false_and, iff_false]
    exact nofun
  by_cases hquery : trimmed document.query = ""
  · simp only [hid, hquery, String.isEmpty_iff, if_true, if_false, ne_eq, not_true_eq_false, false_and,
      and_false, iff_false]
    exact nofun
  simp only [hid, hquery, String.isEmpty_iff, if_false, ne_eq, not_false_eq_true, true_and]
  exact Iff.rfl

/-- A document gives the template back that it was made of, up to the order of the windows, just if the
IRIs in it are read as themselves where they stand without brackets: the handle, and the types and
defaults of the arguments. -/
theorem toTemplate_ofTemplate_iff {body : Query} (space : String) (hbuilt : template.BuiltWith others)
    (hparse : Query.parse template.body.nativeText = .ok body) (hsame : body.sameAs template.body) :
    (∃ copy, (TemplateDocument.ofTemplate template).toTemplate space others = .ok copy ∧
      copy.sameAs template) ↔
      others.expand (trimmed template.handle.text) = template.handle.text ∧
        ∀ argument ∈ template.arguments, argument.Kept (template.prefixes others) := by
  have hdeclared := hbuilt.declared
  have hgraph : body.graph = template.body.graph := Query.graphWith_of_sameAs hsame _
  have hprologue : body.prologue = template.body.prologue := (Query.sameAs_iff.mp hsame).1
  have hparameters : (TemplateDocument.ofTemplate template).parameters =
      template.arguments.map Argument.declaration := rfl
  constructor
  · rintro ⟨copy, hcopy, heq⟩
    obtain ⟨-, -, handle, hhandle, read, hread, hdeclare⟩ := toTemplate_eq_ok_iff.mp hcopy
    cases hparse.symm.trans hread
    obtain ⟨hcopy, -, hagain⟩ := exists_declared_of_declareAll hdeclare
    have hfields := (sameAs_iff.mp heq).2
    have harguments : copy.arguments = template.arguments := by rw [hfields]
    rw [hcopy] at hfields
    obtain rfl : handle = template.handle := congrArg Template.handle hfields
    refine ⟨(TemplateHandle.resolve_text_eq_ok_iff template.handle).mp hhandle, fun argument hargument => ?_⟩
    obtain ⟨written, hwritten⟩ := hdeclared.written argument hargument
    have hvalid := hdeclared.ordered.names argument hargument
    obtain ⟨found, hfound, hread⟩ := hagain argument.declaration (List.mem_map_of_mem hargument)
    -- names tell the arguments of a template apart
    have hname : found.name = argument.name := hread.name.trans (Argument.withoutSigils_of_isArgumentName hvalid)
    obtain rfl := List.inj_on_of_nodup_map hdeclared.ordered.nodup (harguments ▸ hfound) hargument hname
    rw [prefixes, hprologue] at hread
    exact (Argument.declaredBy_declaration_iff hvalid hwritten).mp hread
  · rintro ⟨hhandle, hkept⟩
    have hdeclare := @declareAll_declarations ⟨template.handle, body, [], template.label, template.comment⟩
      others template.arguments hdeclared.ordered.ascending hdeclared.ordered.names ?_ ?_
    · refine ⟨{ template with body := body }, toTemplate_eq_ok_iff.mpr ⟨template.handle.trimmed_text_ne_empty,
        Query.trimmed_ne_empty_of_parse hparse, template.handle, ?_, body, hparse, hdeclare⟩, ?_⟩
      · exact (TemplateHandle.resolve_text_eq_ok_iff template.handle).mpr hhandle
      · exact sameAs_iff.mpr ⟨hsame, rfl⟩
    · exact fun argument hargument => by simpa only [Free, hgraph] using hdeclared.free argument hargument
    · intro argument hargument
      obtain ⟨written, hwritten⟩ := hdeclared.written argument hargument
      rw [prefixes, hprologue]
      exact (Argument.declaredBy_declaration_iff (hdeclared.ordered.names argument hargument) hwritten).mpr
        (hkept argument hargument)

/-- The template about acquaintances, with a class of people as the type of its argument. -/
def peopleTemplate : Template :=
  { TemplateLibrary.knowsTemplate with
    arguments := [⟨"p", some ⟨"urn:a:Person", by decide +kernel⟩, true, none, none, none⟩] }

/-- A template whose IRIs have authorities comes back, and one with a type in another scheme does not. -/
theorem toTemplate_ofTemplate_knows_people :
    let knows := TemplateLibrary.knowsTemplate
    let space := "http://other.org/"
    Query.parse Query.hourly.nativeText = .ok Query.hourly ∧ Query.hourly.sameAs Query.hourly ∧
      knows.BuiltWith PrefixMapping.standard ∧ peopleTemplate.BuiltWith PrefixMapping.standard ∧
      (∃ copy, (TemplateDocument.ofTemplate knows).toTemplate space PrefixMapping.standard = .ok copy ∧
        copy.sameAs knows) ∧
      ¬ ∃ copy, (TemplateDocument.ofTemplate peopleTemplate).toTemplate space PrefixMapping.standard =
        .ok copy ∧ copy.sameAs peopleTemplate := by
  intro knows space
  have hparse : Query.parse Query.hourly.nativeText = .ok Query.hourly := by decide +kernel
  have hsame : Query.hourly.sameAs Query.hourly :=
    Query.sameAs_iff.mpr ⟨rfl, rfl, List.Perm.refl _, rfl, rfl⟩
  have hlabel : BuiltWith PrefixMapping.standard { knows with arguments := [] } :=
    .label (.ofQuery TemplateLibrary.ofQuery_knows) "acquaintances"
  have hknows : knows.BuiltWith PrefixMapping.standard := .declare hlabel TemplateLibrary.declareWith_knows
  have hpeople : peopleTemplate.BuiltWith PrefixMapping.standard := by
    refine @BuiltWith.declare _ _ _ hlabel ⟨"p", some "<urn:a:Person>", none, true, none, none⟩ ?_
    refine bind_eq_ok_iff.mpr ⟨(), TemplateLibrary.checkName_hourly rfl rfl, ?_⟩
    refine bind_eq_ok_iff.mpr ⟨some ⟨"urn:a:Person", by decide +kernel⟩, by decide +kernel, ?_⟩
    exact congrArg (fun arguments => Except.ok { peopleTemplate with arguments := arguments })
      (List.mergeSort_singleton _)
  refine ⟨hparse, hsame, hknows, hpeople,
    (toTemplate_ofTemplate_iff space hknows hparse hsame).mpr ⟨by decide +kernel, ?_⟩, fun h => ?_⟩
  · intro argument hargument
    rw [List.mem_singleton.mp hargument]
    refine ⟨?_, ?_⟩
    · rintro _ ⟨⟩
      exact (@Argument.keeps_of_authority _ _ "http".toList "www.w3.org/2000/01/rdf-schema#Resource".toList
        (by decide) (by decide) (by decide +kernel)).1
    · rintro _ ⟨⟩
      exact (@Argument.keeps_of_authority _ _ "http".toList "a/knows".toList
        (by decide) (by decide) (by decide +kernel)).2
  · have hkept := ((toTemplate_ofTemplate_iff space hpeople hparse hsame).mp h).2 _ List.mem_cons_self
    have hfull := (hkept.type ⟨"urn:a:Person", by decide +kernel⟩ rfl).2
    exact absurd hfull (by decide +kernel)

end Template

end StreamQuery
