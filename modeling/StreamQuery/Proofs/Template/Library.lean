import StreamQuery.Proofs.Except
import StreamQuery.Proofs.Graph
import StreamQuery.Proofs.Iri
import StreamQuery.Template.Library

/-! # What requests do to a library

A request that fails leaves the library alone. One that succeeds puts the templates that it brings
under their handles, takes a template away, takes all away, or only answers.
-/

namespace StreamQuery

open Text

/-! ## Templates of a graph -/

namespace Graph

variable {graph : Graph}

theorem templateHandle_eq_ok_iff {key : String} {iri : Iri} :
    graph.templateHandle key = .ok iri ↔ graph.hasType key Vocabulary.templateClass ∧
      iri.text.toList = trimRight '>' (key.toList.dropWhile (· == '<')) := by
  unfold templateHandle
  dsimp only
  split
  · next htype =>
    rw [and_iff_right htype]
    split
    · next found hfound =>
      have htext := Iri.text_of_ofString? hfound
      constructor
      · rintro ⟨⟩
        rw [htext, String.toList_ofList]
      · intro h
        refine congrArg Except.ok (Iri.ext_text ?_)
        rw [htext, ← h, String.ofList_toList]
    · next hnone =>
      refine iff_of_false nofun fun h => ?_
      rw [← h, String.ofList_toList, Iri.ofString?_text] at hnone
      cases hnone
  · next htype => exact iff_of_false nofun fun h => htype h.1

/-- What a template is read from. -/
theorem template_eq_ok_iff {handle : String} {template : Template} :
    graph.template handle = .ok template ↔
      graph.templateHandle (templateKey handle) = .ok template.handle ∧
        (∃ object, graph.required (templateKey handle) Vocabulary.templateBody = .ok object ∧
          graph.query object.text = .ok template.body) ∧
        (∃ arguments, (graph.objects (templateKey handle) Vocabulary.templateConstraint).mapM
            (fun node => graph.argument node.text) = .ok arguments ∧
          template.arguments = Template.sortArguments arguments) ∧
        template.label = graph.literalValue? (templateKey handle) Vocabulary.rdfsLabel ∧
        template.comment = graph.literalValue? (templateKey handle) Vocabulary.rdfsComment := by
  unfold Graph.template
  constructor
  · intro h
    obtain ⟨iri, hiri, h⟩ := bind_eq_ok_iff.mp h
    obtain ⟨object, hobject, h⟩ := bind_eq_ok_iff.mp h
    obtain ⟨body, hbody, h⟩ := bind_eq_ok_iff.mp h
    obtain ⟨arguments, harguments, h⟩ := bind_eq_ok_iff.mp h
    cases h
    exact ⟨hiri, ⟨object, hobject, hbody⟩, ⟨arguments, harguments, rfl⟩, rfl, rfl⟩
  · rintro ⟨hiri, ⟨object, hobject, hbody⟩, ⟨arguments, harguments, hsort⟩, hlabel, hcomment⟩
    refine bind_eq_ok_iff.mpr ⟨_, hiri, bind_eq_ok_iff.mpr ⟨_, hobject, ?_⟩⟩
    refine bind_eq_ok_iff.mpr ⟨_, hbody, bind_eq_ok_iff.mpr ⟨_, harguments, ?_⟩⟩
    rw [← hsort, ← hlabel, ← hcomment]
    rfl

/-- A template is known by the IRI that it was found under. A blank node in its place is read as the
text of an IRI, and is none. -/
theorem handle_of_template {key : String} {template : Template} (hkey : key ∈ graph.templateHandles)
    (h : graph.template key = .ok template) : template.handle.bracketed = key := by
  obtain ⟨node, rfl, -⟩ := (@mem_subjects graph _ (.ofIri Vocabulary.templateClass) key).mp hkey
  have htext := (templateHandle_eq_ok_iff.mp (template_eq_ok_iff.mp h).1).2
  cases node with
  | iri i =>
      rw [templateKey, if_pos (by rw [Node.text, i.toList_bracketed]; rfl), Node.text,
        i.trimRight_bracketed, String.toList_inj] at htext
      exact congrArg Iri.bracketed (Iri.ext_text htext)
  | blank label =>
      obtain ⟨first, others, rest, heq, hfirst, -, -⟩ := IriGrammar.exists_scheme template.handle.absolute
      obtain ⟨n, hn⟩ := PrefixMapping.trimRight_append '>' ('_' :: ':' :: (label.toList ++ ['>']))
      have hopen : (templateKey (Node.blank label).text).toList.dropWhile (· == '<') =
          '_' :: ':' :: (label.toList ++ ['>']) := by
        rw [templateKey, if_neg (by simp [Node.text])]
        simp [Node.text]
      rw [← hopen, ← htext, heq, hopen] at hn
      rw [← (List.cons_eq_cons.mp hn).1] at hfirst
      exact absurd hfirst (by decide)

/-- Reading all templates of a graph gives one for each handle. -/
theorem handles_of_templates {templates : List Template} (h : graph.templates = .ok templates) :
    templates.map (·.handle.bracketed) = graph.templateHandles := by
  have hread : ∀ keys : List String, (∀ key ∈ keys, key ∈ graph.templateHandles) →
      ∀ templates, keys.mapM graph.template = .ok templates →
        templates.map (·.handle.bracketed) = keys := by
    intro keys hkeys
    induction keys with
    | nil =>
        intro templates h
        cases h
        rfl
    | cons key keys ih =>
        intro templates h
        rw [List.mapM_cons] at h
        obtain ⟨template, htemplate, h⟩ := bind_eq_ok_iff.mp h
        obtain ⟨rest, hrest, h⟩ := bind_eq_ok_iff.mp h
        cases h
        obtain ⟨hkey, hkeys⟩ := List.forall_mem_cons.mp hkeys
        rw [List.map_cons, handle_of_template hkey htemplate, ih hkeys rest hrest]
  exact hread _ (fun _ => id) _ h

theorem nodup_handles_of_templates {templates : List Template} (h : graph.templates = .ok templates) :
    (templates.map (·.handle.text)).Nodup := by
  have hnodup : (templates.map (·.handle.bracketed)).Nodup := by
    rw [handles_of_templates h]
    exact nodup_sortedNames _
  have hmap : templates.map (·.handle.bracketed) =
      (templates.map (·.handle.text)).map fun text => "<" ++ text ++ ">" := by
    rw [List.map_map]
    rfl
  rw [hmap] at hnodup
  exact hnodup.of_map _

end Graph

namespace TemplateLibrary

variable {library : TemplateLibrary}

/-! ## Templates put under their handles -/

theorem get?_putAll_of_not_mem {templates : List Template} {key : String}
    (h : ∀ template ∈ templates, template.handle.text ≠ key) :
    (templates.foldl put library).templates.get? key = library.templates.get? key := by
  induction templates generalizing library with
  | nil => rfl
  | cons template rest ih =>
      obtain ⟨htemplate, hrest⟩ := List.forall_mem_cons.mp h
      rw [List.foldl_cons, ih hrest, put, SortedMap.get?_insert, if_neg htemplate.symm]

/-- Of templates with handles of their own, each can be found afterwards. -/
theorem get?_putAll_of_mem {templates : List Template}
    (hnodup : (templates.map (·.handle.text)).Nodup) {template : Template} (h : template ∈ templates) :
    (templates.foldl put library).templates.get? template.handle.text = some template := by
  induction templates generalizing library with
  | nil => cases h
  | cons first rest ih =>
      obtain ⟨hfirst, hnodup⟩ := List.nodup_cons.mp hnodup
      rw [List.foldl_cons]
      rcases List.mem_cons.mp h with rfl | h
      · rw [get?_putAll_of_not_mem, put, SortedMap.get?_insert, if_pos rfl]
        exact fun other hother heq => hfirst (List.mem_map.mpr ⟨other, hother, heq⟩)
      · exact ih hnodup h

theorem exists_get?_putAll {templates : List Template} {key : String}
    (h : ∃ template, library.templates.get? key = some template) :
    ∃ template, (templates.foldl put library).templates.get? key = some template := by
  induction templates generalizing library with
  | nil => exact h
  | cons first rest ih =>
      refine ih ?_
      rw [put, SortedMap.get?_insert]
      split
      · exact ⟨first, rfl⟩
      · exact h

theorem mem_or_get?_of_putAll {templates : List Template} {key : String} {template : Template}
    (h : (templates.foldl put library).templates.get? key = some template) :
    template ∈ templates ∧ template.handle.text = key ∨
      library.templates.get? key = some template := by
  induction templates generalizing library with
  | nil => exact .inr h
  | cons first rest ih =>
      rcases ih h with ⟨hmem, hkey⟩ | hget
      · exact .inl ⟨List.mem_cons_of_mem _ hmem, hkey⟩
      · rcases SortedMap.get?_insert_eq_some_iff.mp hget with ⟨rfl, rfl⟩ | ⟨hget, -⟩
        · exact .inl ⟨List.mem_cons_self, rfl⟩
        · exact .inr hget

end TemplateLibrary

namespace LibraryRequest

/-- The templates that a request brings to a library, as far as they can be read. -/
def incoming (library : TemplateLibrary) : LibraryRequest → List Template
  | add template _ => [template]
  | addDocument text _ => (library.templateOf text).toOption.toList
  | addGraph source _ => source.templates.toOption.getD []
  | _ => []

/-- Whether a request brings templates that may not replace others. -/
def isNew : LibraryRequest → Bool
  | add _ replace | addDocument _ replace | addGraph _ replace => !replace
  | _ => false

/-- What a request makes of a library if it succeeds. -/
def effect (library : TemplateLibrary) : LibraryRequest → TemplateLibrary
  | remove handle => library.remove handle
  | clear => library.clear
  | request => (request.incoming library).foldl TemplateLibrary.put library

theorem nodup_incoming (library : TemplateLibrary) (request : LibraryRequest) :
    ((request.incoming library).map (·.handle.text)).Nodup := by
  cases request with
  | addDocument text _ =>
      rw [incoming]
      cases library.templateOf text <;> simp [Except.toOption]
  | addGraph source _ =>
      rw [incoming]
      cases h : source.templates with
      | error _ => exact List.nodup_nil
      | ok templates => exact Graph.nodup_handles_of_templates h
  | _ => simp [incoming]

end LibraryRequest

namespace Serving

variable {library : TemplateLibrary}

theorem run_look {α : Type} (question : TemplateLibrary → Except TemplateError α)
    (library : TemplateLibrary) : (look question).run.run library = (question library, library) := by
  rw [look, run_get_bind, run_liftM]

theorem run_look_bind_ok {α β : Type} (question : TemplateLibrary → Except TemplateError α)
    {library : TemplateLibrary} {value : α} (h : question library = .ok value)
    (rest : α → Serving β) :
    (look question >>= rest).run.run library = (rest value).run.run library :=
  run_bind_of_ok (by rw [run_look, h]) rest

theorem run_look_bind_error {α β : Type} (question : TemplateLibrary → Except TemplateError α)
    {library : TemplateLibrary} {error : TemplateError} (h : question library = .error error)
    (rest : α → Serving β) : (look question >>= rest).run.run library = (.error error, library) :=
  run_bind_of_error (by rw [run_look, h]) rest

theorem run_add (template : Template) (replace : Bool) (library : TemplateLibrary) :
    (add template replace).run.run library =
      if !replace && library.templates.contains template.handle.text then
        (.error (.alreadyRegistered template.handle.text), library)
      else (.ok (.added template), library.put template) := by
  rw [add, run_get_bind]
  split
  · rfl
  · rfl

theorem run_remove (handle : String) (library : TemplateLibrary) :
    (remove handle).run.run library =
      (.ok (.template (library.find? handle)), library.remove handle) :=
  run_look_bind_ok (fun library => .ok (library.find? handle)) rfl _

theorem run_forM_put (templates : List Template) (library : TemplateLibrary) :
    (templates.forM fun template => modify (·.put template) : Serving PUnit).run.run library =
      (.ok ⟨⟩, templates.foldl TemplateLibrary.put library) := by
  induction templates generalizing library with
  | nil => rfl
  | cons template rest ih => exact ih (library.put template)

/-- Templates are registered at once if none of their handles is taken. -/
theorem run_addAll {templates : List Template} {replace : Bool}
    (h : ∀ template ∈ templates, ¬ (!replace && library.templates.contains template.handle.text) = true) :
    (addAll templates replace).run.run library =
      (.ok (.imported templates.length), templates.foldl TemplateLibrary.put library) := by
  rw [addAll, run_get_bind, List.find?_eq_none.mpr h]
  exact run_bind_of_ok (run_forM_put templates library) _

theorem get?_eq_none_of_contains {replace : Bool} {key : String}
    (h : (!replace && library.templates.contains key) = false) (hnew : !replace) :
    library.templates.get? key = none := by
  rw [hnew, Bool.true_and, SortedMap.contains] at h
  exact Option.isNone_iff_eq_none.mp (by simpa using h)

theorem add_cases (template : Template) (replace : Bool) (library : TemplateLibrary) :
    (∃ error, (add template replace).run.run library = (.error error, library)) ∨
    ∃ answer, (add template replace).run.run library = (.ok answer, library.put template) ∧
      (!replace → library.templates.get? template.handle.text = none) := by
  rw [run_add]
  split
  · exact .inl ⟨_, rfl⟩
  · next hfree =>
    exact .inr ⟨_, rfl, get?_eq_none_of_contains (Bool.eq_false_iff.mpr hfree)⟩

theorem addAll_cases (templates : List Template) (replace : Bool) (library : TemplateLibrary) :
    (∃ error, (addAll templates replace).run.run library = (.error error, library)) ∨
    ∃ answer, (addAll templates replace).run.run library =
        (.ok answer, templates.foldl TemplateLibrary.put library) ∧
      (!replace → ∀ template ∈ templates,
        library.templates.get? template.handle.text = none) := by
  cases htaken : templates.find? fun template =>
      !replace && library.templates.contains template.handle.text with
  | some template =>
      refine .inl ⟨.alreadyRegistered template.handle.text, ?_⟩
      rw [addAll, run_get_bind, htaken]
      rfl
  | none =>
      have hfree := List.find?_eq_none.mp htaken
      refine .inr ⟨.imported templates.length, run_addAll hfree, fun hnew template htemplate => ?_⟩
      exact get?_eq_none_of_contains (Bool.eq_false_iff.mpr (hfree template htemplate)) hnew

end Serving

namespace TemplateLibrary

theorem serve_remove (library : TemplateLibrary) (handle : String) :
    library.serve (.remove handle) = (.ok (.template (library.find? handle)), library.remove handle) :=
  Serving.run_remove handle library

/-- A question has an answer or not, and changes nothing. -/
theorem look_cases (library : TemplateLibrary)
    (question : TemplateLibrary → Except TemplateError LibraryAnswer) :
    (∃ error, (Serving.look question).run.run library = (.error error, library)) ∨
    ∃ answer, (Serving.look question).run.run library = (.ok answer, library) := by
  rw [Serving.run_look]
  cases question library with
  | error error => exact .inl ⟨error, rfl⟩
  | ok answer => exact .inr ⟨answer, rfl⟩

/-- What can come of a request: it fails and leaves the library as it was, or it has its effect. -/
theorem serve_cases (library : TemplateLibrary) (request : LibraryRequest) :
    (∃ error, library.serve request = (.error error, library)) ∨
    ∃ answer, library.serve request = (.ok answer, request.effect library) ∧
      (request.isNew → ∀ template ∈ request.incoming library,
        library.templates.get? template.handle.text = none) := by
  cases request with
  | add template replace =>
      refine (Serving.add_cases template replace library).imp_right fun ⟨answer, hrun, hfree⟩ => ?_
      exact ⟨answer, hrun, fun hnew => by simpa [LibraryRequest.incoming] using hfree hnew⟩
  | addDocument text replace =>
      cases h : library.templateOf text with
      | error error => exact .inl ⟨error, Serving.run_look_bind_error _ h _⟩
      | ok template =>
          have hrun : library.serve (.addDocument text replace) =
              (Serving.add template replace).run.run library := Serving.run_look_bind_ok _ h _
          have hincoming : (LibraryRequest.addDocument text replace).incoming library = [template] := by
            rw [LibraryRequest.incoming, h]
            rfl
          rw [hrun, LibraryRequest.effect, hincoming]
          · refine (Serving.add_cases template replace library).imp_right
              fun ⟨answer, hrun, hfree⟩ => ⟨answer, hrun, fun hnew => by simpa using hfree hnew⟩
          · nofun
          · nofun
  | addGraph source replace =>
      cases h : source.templates with
      | error error =>
          exact .inl ⟨.codec error, Serving.run_look_bind_error _ (congrArg (Except.mapError _) h) _⟩
      | ok templates =>
          have hrun : library.serve (.addGraph source replace) =
              (Serving.addAll templates replace).run.run library :=
            Serving.run_look_bind_ok _ (congrArg (Except.mapError _) h) _
          have hincoming : (LibraryRequest.addGraph source replace).incoming library = templates := by
            rw [LibraryRequest.incoming, h]
            rfl
          rw [hrun, LibraryRequest.effect, hincoming]
          · exact Serving.addAll_cases templates replace library
          · nofun
          · nofun
  | remove handle => exact .inr ⟨_, serve_remove library handle, nofun⟩
  | clear => exact .inr ⟨_, rfl, nofun⟩
  | _ => exact (look_cases library _).imp_right fun ⟨answer, hrun⟩ => ⟨answer, hrun, nofun⟩

end TemplateLibrary

end StreamQuery
