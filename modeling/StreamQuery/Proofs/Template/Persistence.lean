import StreamQuery.Proofs.Codec.Mentions
import StreamQuery.Proofs.Codec.Template
import StreamQuery.Proofs.Template.Requests

/-! # Libraries through graphs and back

The graph of a library gives all of its templates back, under their handles. It does not matter in which
order the templates were written, or which labels their blank nodes have.
-/

namespace StreamQuery

namespace Template

variable {template : Template}

/-- Templates that say the same differ in the order of the windows of their queries. -/
theorem sameAs_iff {a b : Template} :
    a.sameAs b ↔ a.body.sameAs b.body ∧ a = { b with body := a.body } := by
  obtain ⟨handle, body, arguments, label, comment⟩ := a
  simp only [sameAs, Bool.and_eq_true, beq_iff_eq, mk.injEq]
  tauto

theorem handle_eq_of_sameAs {a b : Template} (h : a.sameAs b) : a.handle = b.handle := by
  rw [(sameAs_iff.mp h).2]

/-- An argument can be declared just as well over a query that says the same. -/
theorem declareWith_body {body : Query} (hsame : body.sameAs template.body) (declaration : Declaration)
    (others : PrefixMapping) :
    declareWith { template with body := body } declaration others =
      (fun declared => { declared with body := body }) <$> template.declareWith declaration others := by
  have hgraph : body.graph = template.body.graph := Query.graphWith_of_sameAs hsame _
  have hprologue : body.prologue = template.body.prologue := (Query.sameAs_iff.mp hsame).1
  simp only [declareWith, checkName, argument?, prefixes, hgraph, hprologue, map_bind, map_pure]

/-- A template that says the same as one that was built could have been built as well. -/
theorem Built.of_sameAs {copy : Template} (h : template.Built) (hsame : copy.sameAs template) :
    copy.Built := by
  obtain ⟨hbody, heq⟩ := sameAs_iff.mp hsame
  rw [heq]
  generalize copy.body = body at hbody
  clear heq hsame
  induction h with
  | ofQuery h =>
      obtain ⟨iri, hiri, rfl⟩ := ofQuery_eq_ok_iff.mp h
      exact .ofQuery (ofQuery_eq_ok_iff.mpr ⟨iri, hiri, rfl⟩)
  | label _ label ih => exact .label (ih hbody) label
  | comment _ comment ih => exact .comment (ih hbody) comment
  | @declare template template' _ declaration others hdeclare ih =>
      have hquery : template'.body = template.body := by
        obtain ⟨argument, -, -, rfl⟩ := declareWith_eq_ok hdeclare
        rfl
      rw [hquery] at hbody
      have hagain : declareWith { template with body := body } declaration others =
          .ok { template' with body := body } := by
        rw [declareWith_body hbody, hdeclare]
        rfl
      exact .declare (ih hbody) hagain

/-- What was built, over a query that survives a graph, can be read from a graph. -/
theorem Built.readable (h : template.Built) (hbody : template.body.Survives) : template.Readable :=
  ⟨hbody.readable, h.ordered⟩

end Template

namespace TemplateLibrary

/-- Libraries that are left by requests which bring nothing but templates that were built, over queries
that survive a graph. -/
inductive Reached : TemplateLibrary → Prop where
  | empty (space : String) (checker : ArgumentChecker) : Reached (.empty space checker)
  | serve {library : TemplateLibrary} (h : Reached library) (request : LibraryRequest)
      (hincoming : ∀ template ∈ request.incoming library, template.Built ∧ template.body.Survives) :
      Reached (library.serve request).2

variable {library : TemplateLibrary}

namespace Reached

theorem keyed (h : library.Reached) : library.Keyed := by
  induction h with
  | empty space checker => exact keyed_empty space checker
  | serve _ request _ ih => exact ih.serve request

theorem built (h : library.Reached) : ∀ key template, library.templates.get? key = some template →
    template.Built ∧ template.body.Survives := by
  induction h with
  | empty space checker => exact fun _ _ hget => nomatch hget
  | serve _ request hincoming ih =>
      intro key template hget
      rcases mem_or_get?_of_serve hget with ⟨hmem, -⟩ | hget
      · exact hincoming template hmem
      · exact ih key template hget

end Reached

/-- The templates of a library have handles of their own. -/
theorem Keyed.nodup_handles (h : library.Keyed) :
    ((library.templates.entries.map Prod.snd).map Template.handle).Nodup := by
  have hkeys : (library.templates.entries.map Prod.snd).map (Iri.text ∘ Template.handle) =
      library.templates.keys := by
    rw [List.map_map]
    exact List.map_congr_left fun entry hentry => h entry.1 entry.2 (SortedMap.get?_of_mem hentry)
  have hnodup := library.templates.nodup_keys
  rw [← hkeys, ← List.map_map] at hnodup
  exact hnodup.of_map

/-- Of templates listed in any order, a library holds each one under its handle. -/
theorem Keyed.get?_eq_some_iff (h : library.Keyed) {listed : List Template}
    (hlisted : listed.Perm (library.templates.entries.map Prod.snd)) {key : String} {template : Template} :
    library.templates.get? key = some template ↔ template ∈ listed ∧ template.handle.text = key := by
  rw [hlisted.mem_iff, List.mem_map, SortedMap.get?_eq_some_iff]
  constructor
  · exact fun hentry => ⟨⟨(key, template), hentry, rfl⟩, h key template (SortedMap.get?_of_mem hentry)⟩
  · rintro ⟨⟨⟨key', _⟩, hentry, rfl⟩, rfl⟩
    rwa [h key' _ (SortedMap.get?_of_mem hentry)]

/-- A library without templates takes all templates that a graph gives. -/
theorem serve_addGraph_empty (space : String) (checker : ArgumentChecker) {graph : Graph}
    {copies : List Template} (h : graph.templates = .ok copies) :
    (empty space checker).serve (.addGraph graph false) =
      (.ok (.imported copies.length), copies.foldl put (empty space checker)) := by
  refine (Serving.run_look_bind_ok _ (congrArg (Except.mapError _) h) _).trans ?_
  exact Serving.run_addAll fun _ _ => Bool.false_ne_true

theorem get?_putAll_empty_iff {space : String} {checker : ArgumentChecker} {copies : List Template}
    (hnodup : (copies.map (·.handle.text)).Nodup) {key : String} {copy : Template} :
    (copies.foldl put (empty space checker)).templates.get? key = some copy ↔
      copy ∈ copies ∧ copy.handle.text = key := by
  constructor
  · intro hget
    exact (mem_or_get?_of_putAll hget).resolve_right nofun
  · rintro ⟨hmem, rfl⟩
    exact get?_putAll_of_mem hnodup hmem

/-- The templates of a library are read from a graph of them, in whatever order they were written. -/
theorem exists_copies (h : library.Reached) {listed : List Template}
    (hlisted : listed.Perm (library.templates.entries.map Prod.snd)) {supply : Nat → String}
    (hsupply : Function.Injective supply) :
    ∃ copies, ((Encoder.templates listed).graphWith supply).templates = .ok copies ∧
      copies.length = listed.length ∧ (∀ template ∈ listed, ∃ copy ∈ copies, copy.sameAs template) ∧
      ∀ copy ∈ copies, ∃ template ∈ listed, copy.sameAs template := by
  have hhandles := (hlisted.map Template.handle).nodup_iff.mpr h.keyed.nodup_handles
  obtain ⟨parts, rfl, hmade⟩ := Encoder.madeOf_templates hhandles hsupply
  have hreadable : ∀ part ∈ parts, part.template.Readable := by
    intro part hpart
    obtain ⟨entry, hentry, heq⟩ :=
      List.mem_map.mp (hlisted.mem_iff.mp (List.mem_map_of_mem (f := TemplatePart.template) hpart))
    obtain ⟨hbuilt, hsurvives⟩ := h.built entry.1 entry.2 (SortedMap.get?_of_mem hentry)
    rw [← heq]
    exact hbuilt.readable hsurvives
  obtain ⟨copies, hcopies, hlength, hgiven, hfrom⟩ := hmade.exists_templates hreadable
  refine ⟨copies, hcopies, hlength.trans (List.length_map _).symm, List.forall_mem_map.mpr hgiven,
    fun copy hcopy => ?_⟩
  obtain ⟨part, hpart, hsame⟩ := hfrom copy hcopy
  exact ⟨part.template, List.mem_map_of_mem hpart, hsame⟩

/-- What comes from the graph of a library may come to another one. -/
theorem Reached.incoming (h : library.Reached) {listed : List Template}
    (hlisted : listed.Perm (library.templates.entries.map Prod.snd)) {copies : List Template}
    (hfrom : ∀ copy ∈ copies, ∃ template ∈ listed, copy.sameAs template) :
    ∀ copy ∈ copies, copy.Built ∧ copy.body.Survives := by
  intro copy hcopy
  obtain ⟨template, htemplate, hsame⟩ := hfrom copy hcopy
  obtain ⟨hbuilt, hsurvives⟩ :=
    h.built _ _ ((h.keyed.get?_eq_some_iff hlisted).mpr ⟨htemplate, rfl⟩)
  exact ⟨hbuilt.of_sameAs hsame, hsurvives.of_sameAs (Template.sameAs_iff.mp hsame).1⟩

/-- A library without templates takes over what the graph of another one holds. -/
theorem exists_imported (h : library.Reached) {listed : List Template}
    (hlisted : listed.Perm (library.templates.entries.map Prod.snd)) {supply : Nat → String}
    (hsupply : Function.Injective supply) (space : String) (checker : ArgumentChecker) :
    ∃ copy, (empty space checker).serve (.addGraph ((Encoder.templates listed).graphWith supply) false) =
        (.ok (.imported library.size), copy) ∧
      copy.Reached ∧ copy.handles = library.handles ∧
      ∀ key template, library.templates.get? key = some template →
        ∃ same, copy.templates.get? key = some same ∧ same.sameAs template := by
  obtain ⟨copies, hcopies, hlength, hgiven, hfrom⟩ := exists_copies h hlisted hsupply
  have hcopy : ∀ key copy, (copies.foldl put (empty space checker)).templates.get? key = some copy ↔
      copy ∈ copies ∧ copy.handle.text = key := fun key copy =>
    get?_putAll_empty_iff (Graph.nodup_handles_of_templates hcopies)
  have hsize : copies.length = library.size := by
    rw [hlength, hlisted.length_eq, List.length_map]
    rfl
  have hkept : ∀ key template, library.templates.get? key = some template →
      ∃ same, (copies.foldl put (empty space checker)).templates.get? key = some same ∧
        same.sameAs template := by
    intro key template htemplate
    obtain ⟨hmem, rfl⟩ := (h.keyed.get?_eq_some_iff hlisted).mp htemplate
    obtain ⟨same, hsame, heq⟩ := hgiven template hmem
    exact ⟨same, (hcopy _ same).mpr ⟨hsame, congrArg Iri.text (Template.handle_eq_of_sameAs heq)⟩, heq⟩
  have hserve := serve_addGraph_empty space checker hcopies
  rw [hsize] at hserve
  have hreached : (copies.foldl put (empty space checker)).Reached := by
    have hincoming : (LibraryRequest.addGraph _ false).incoming (empty space checker) = copies :=
      congrArg (·.toOption.getD []) hcopies
    have hnext := Reached.serve (.empty space checker) (.addGraph _ false)
      (hincoming ▸ h.incoming hlisted hfrom)
    rwa [hserve] at hnext
  refine ⟨_, hserve, hreached, SortedMap.keys_eq_of_mem_iff fun key => ?_, hkept⟩
  rw [SortedMap.mem_keys_iff, SortedMap.mem_keys_iff]
  constructor
  · rintro ⟨copy, hget⟩
    obtain ⟨hmem, rfl⟩ := (hcopy key copy).mp hget
    obtain ⟨template, htemplate, heq⟩ := hfrom copy hmem
    have hkey := congrArg Iri.text (Template.handle_eq_of_sameAs heq).symm
    exact ⟨template, (h.keyed.get?_eq_some_iff hlisted).mpr ⟨htemplate, hkey⟩⟩
  · rintro ⟨template, htemplate⟩
    obtain ⟨same, hsame, -⟩ := hkept key template htemplate
    exact ⟨same, hsame⟩

/-- Templates are read back from their graphs, each on its own under either form of its handle. And the
graph of a library makes a library without templates equal to it. -/
theorem graph_keeps_library {supply : Nat → String} (hsupply : Function.Injective supply) :
    (∀ template : Template, template.Built → template.body.Survives →
      ∀ handle ∈ [template.handle.text, template.handle.bracketed],
        ∃ copy, ((Encoder.template template).graphWith supply).template handle = .ok copy ∧
          copy.sameAs template) ∧
    ∀ library : TemplateLibrary, library.Reached →
      ∀ listed : List Template, listed.Perm (library.templates.entries.map Prod.snd) →
      ∀ (space : String) (checker : ArgumentChecker), ∃ copy,
        (empty space checker).serve (.addGraph ((Encoder.templates listed).graphWith supply) false) =
          (.ok (.imported library.size), copy) ∧
        copy.Reached ∧ copy.handles = library.handles ∧
        ∀ key template, library.templates.get? key = some template →
          ∃ same, copy.templates.get? key = some same ∧ same.sameAs template := by
  refine ⟨fun template hbuilt hsurvives handle hhandle => ?_, fun library hreached listed hlisted =>
    exists_imported hreached hlisted hsupply⟩
  obtain ⟨part, rfl, hmade⟩ := Encoder.madeOf_template template hsupply
  refine hmade.exists_template (List.mem_singleton_self part) (hbuilt.readable hsurvives) ?_
  rcases List.mem_pair.mp hhandle with rfl | rfl
  · exact part.template.handle.templateKey_text
  · exact part.template.handle.templateKey_bracketed

/-- The template of the query over the last hour of a stream, with an argument for its predicate. -/
def knowsTemplate : Template where
  handle := ⟨"http://w3id.org/rsp/templates/knows", by decide +kernel⟩
  body := Query.hourly
  arguments := [⟨"p", some Vocabulary.rdfsResource, true,
    some (.iri ⟨"http://a/knows", by decide +kernel⟩), some "predicate", none⟩]
  label := some "acquaintances"
  comment := none

theorem hourlyTemplate_built : hourlyTemplate.Built := by
  have hquery : Template.ofQuery Query.hourly "http://w3id.org/rsp/templates/hourly" =
      .ok hourlyTemplate := by decide +kernel
  exact .ofQuery hquery

/-- The query mentions the predicate, and does not answer with it. -/
theorem hourly_questions :
    Query.hourly.graph.hasVariable "p" ∧ Query.hourly.graph.isProjected "p" = false := by
  rw [Bool.eq_false_iff, Query.graph, Query.hasVariable_iff _ Encoding.numbered_injective, ne_eq,
    Query.isProjected_iff _ Encoding.numbered_injective]
  decide +kernel

theorem ofQuery_knows : Template.ofQuery Query.hourly "<http://w3id.org/rsp/templates/knows>" =
    .ok ⟨knowsTemplate.handle, Query.hourly, [], none, none⟩ := by decide +kernel

theorem checkName_hourly {template : Template} (hbody : template.body = Query.hourly)
    (harguments : template.arguments = []) : template.checkName "p" = .ok () := by
  refine bind_eq_ok_iff.mpr ⟨(), by decide +kernel, bind_eq_ok_iff.mpr ⟨(), ?_, ?_⟩⟩
  · rw [Template.argument?, harguments]
    rfl
  rw [hbody]
  refine bind_eq_ok_iff.mpr ⟨true, ?_, bind_eq_ok_iff.mpr ⟨(), rfl, bind_eq_ok_iff.mpr ⟨false, ?_, rfl⟩⟩⟩
  · exact mapError_eq_ok_iff.mpr (bind_eq_ok_iff.mpr
      ⟨(), by decide +kernel, congrArg Except.ok hourly_questions.1⟩)
  · exact mapError_eq_ok_iff.mpr (bind_eq_ok_iff.mpr
      ⟨(), by decide +kernel, congrArg Except.ok hourly_questions.2⟩)

/-- The declaration of the predicate as an argument. -/
def predicateDeclaration : Declaration :=
  ⟨"?p", some "rdfs:Resource", some "<http://a/knows>", true, some "predicate", none⟩

theorem declareWith_predicate {template : Template} (hbody : template.body = Query.hourly)
    (harguments : template.arguments = []) :
    template.declareWith predicateDeclaration PrefixMapping.standard =
      .ok { template with arguments := knowsTemplate.arguments } := by
  let prefixes := PrefixMapping.merge PrefixMapping.standard Query.hourly.prologue.prefixes
  have htype : Template.declaredType prefixes predicateDeclaration.type =
      .ok (some Vocabulary.rdfsResource) := by decide +kernel
  have hdefault : Template.declaredDefault "p" (some Vocabulary.rdfsResource) prefixes
      predicateDeclaration.default = .ok (some (.iri ⟨"http://a/knows", by decide +kernel⟩)) := by
    decide +kernel
  refine bind_eq_ok_iff.mpr ⟨(), checkName_hourly hbody harguments, ?_⟩
  obtain ⟨handle, body, arguments, label, comment⟩ := template
  subst hbody harguments
  refine bind_eq_ok_iff.mpr ⟨_, htype, bind_eq_ok_iff.mpr ⟨_, hdefault, ?_⟩⟩
  exact congrArg (fun arguments => Except.ok (Template.mk handle Query.hourly arguments label comment))
    (List.mergeSort_singleton _)

theorem declareWith_knows : Template.declareWith { knowsTemplate with arguments := [] }
    predicateDeclaration PrefixMapping.standard = .ok knowsTemplate :=
  declareWith_predicate rfl rfl

theorem knowsTemplate_built : knowsTemplate.Built :=
  .declare (.label (.ofQuery ofQuery_knows) "acquaintances") declareWith_knows

theorem hourly_survives : Query.hourly.Survives := by
  have hparse : Query.parse Query.hourlyText = .ok Query.hourly := by decide +kernel
  have hbody : Query.parse Query.hourly.bodyText =
      .ok (.ofBody Query.hourly.prologue Query.hourly.body) := by decide +kernel
  obtain ⟨windows, hgraph, hperm⟩ :=
    Query.onlyQuery_of_parse hparse hbody Encoding.numbered_injective
  exact ⟨Encoding.numbered, Encoding.numbered_injective, _, hgraph, Query.sameAs_of_perm hperm⟩

/-- A library of two templates over the same query comes back from its graph. -/
theorem graph_keeps_library_hourly :
    let library := (((empty standardSpace ArgumentChecker.standard).serve
      (.add hourlyTemplate false)).2.serve (.add knowsTemplate false)).2
    knowsTemplate.Built ∧ knowsTemplate.body.Survives ∧
      (∃ copy, knowsTemplate.graph.template knowsTemplate.handle.text = .ok copy ∧
        copy.sameAs knowsTemplate) ∧
      library.Reached ∧ ∃ copy,
        (empty standardSpace ArgumentChecker.standard).serve (.addGraph library.graph false) =
          (.ok (.imported 2), copy) ∧
        copy.Reached ∧ copy.handles = library.handles ∧
        ∀ key template, library.templates.get? key = some template →
          ∃ same, copy.templates.get? key = some same ∧ same.sameAs template := by
  intro library
  have hreached : library.Reached := by
    refine .serve (.serve (.empty _ _) (.add hourlyTemplate false) fun template htemplate => ?_)
      (.add knowsTemplate false) fun template htemplate => ?_
    · rw [List.mem_singleton.mp htemplate]
      exact ⟨hourlyTemplate_built, hourly_survives⟩
    · rw [List.mem_singleton.mp htemplate]
      exact ⟨knowsTemplate_built, hourly_survives⟩
  obtain ⟨hone, hall⟩ := graph_keeps_library Encoding.numbered_injective
  exact ⟨knowsTemplate_built, hourly_survives,
    hone knowsTemplate knowsTemplate_built hourly_survives _ List.mem_cons_self, hreached,
    hall library hreached _ (List.Perm.refl _) standardSpace ArgumentChecker.standard⟩

end TemplateLibrary

end StreamQuery
