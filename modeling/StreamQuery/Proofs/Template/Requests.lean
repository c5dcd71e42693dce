import StreamQuery.Proofs.Query.RoundTrip
import StreamQuery.Proofs.Template.Library

/-! # Libraries over whole runs

Whatever a library is asked for, it keeps each template under its own handle, and a request that fails
changes nothing. A handle that is registered twice has been free in between.
-/

namespace StreamQuery

namespace LibraryRequest

/-- The keys whose entries a request may change. -/
def Names (library : TemplateLibrary) (key : String) : LibraryRequest → Prop
  | clear => True
  | remove handle => ∃ iri, library.resolve handle = .ok iri ∧ iri.text = key
  | request => ∃ template ∈ request.incoming library, template.handle.text = key

/-- A request that takes nothing away registers what it brings. -/
theorem removes_or_registers (library : TemplateLibrary) (request : LibraryRequest) :
    (request = .clear ∨ ∃ handle, request = .remove handle) ∨
      request.effect library = (request.incoming library).foldl TemplateLibrary.put library ∧
        ∀ key, request.Names library key ↔
          ∃ template ∈ request.incoming library, template.handle.text = key := by
  cases request with
  | clear => exact .inl (.inl rfl)
  | remove handle => exact .inl (.inr ⟨handle, rfl⟩)
  | _ => exact .inr ⟨rfl, fun _ => Iff.rfl⟩

/-- What one request does to a library: all that it is meant to do, or nothing. -/
structure Served (library : TemplateLibrary) (request : LibraryRequest) : Prop where
  failed : ∀ error, (library.serve request).1 = .error error → (library.serve request).2 = library
  registered : ∀ answer, (library.serve request).1 = .ok answer →
    ∀ template ∈ request.incoming library,
      (library.serve request).2.templates.get? template.handle.text = some template
  free : ∀ answer, (library.serve request).1 = .ok answer → request.isNew →
    ∀ template ∈ request.incoming library, library.templates.get? template.handle.text = none
  others : ∀ key, ¬ request.Names library key →
    (library.serve request).2.templates.get? key = library.templates.get? key

/-- A registration under a key that may not replace what is there. -/
structure Registers (library : TemplateLibrary) (key : String) (request : LibraryRequest) : Prop where
  answered : ∃ answer, (library.serve request).1 = .ok answer
  isNew : request.isNew
  incoming : ∃ template ∈ request.incoming library, template.handle.text = key

/-- A removal of the template of a key, alone or with all others. -/
structure Frees (library : TemplateLibrary) (key : String) (request : LibraryRequest) : Prop where
  held : key ∈ library.handles
  freed : key ∉ (library.serve request).2.handles
  removal : request = .clear ∨ ∃ handle template, request = .remove handle ∧
    (library.serve request).1 = .ok (.template (some template)) ∧ template.handle.text = key

end LibraryRequest

namespace TemplateLibrary

variable {library : TemplateLibrary} {request : LibraryRequest} {key : String}

/-- Each template is held under its own handle. -/
def Keyed (library : TemplateLibrary) : Prop :=
  ∀ key template, library.templates.get? key = some template → template.handle.text = key

theorem mem_handles : key ∈ library.handles ↔ ∃ template, library.templates.get? key = some template :=
  SortedMap.mem_keys_iff

/-! ## One request -/

theorem get?_remove_of_ne {handle : String} (h : ¬ LibraryRequest.Names library key (.remove handle)) :
    (library.remove handle).templates.get? key = library.templates.get? key := by
  unfold remove
  split
  · next iri hresolve => 
    rw [SortedMap.get?_erase, if_neg fun heq => h ⟨iri, hresolve, heq.symm⟩]
  · rfl

theorem get?_remove_of_resolve {handle : String} {iri : Iri} (h : library.resolve handle = .ok iri) :
    (library.remove handle).templates.get? iri.text = none := by
  unfold remove
  simp only [h]
  rw [SortedMap.get?_erase]
  exact if_pos rfl

theorem get?_effect_of_not_names (h : ¬ request.Names library key) :
    (request.effect library).templates.get? key = library.templates.get? key := by
  rcases request.removes_or_registers library with (rfl | ⟨handle, rfl⟩) | ⟨heffect, hnames⟩
  · exact (h trivial).elim
  · rw [LibraryRequest.effect, get?_remove_of_ne h]
  · rw [heffect]
    refine get?_putAll_of_not_mem fun template htemplate heq => ?_
    exact h ((hnames key).mpr ⟨template, htemplate, heq⟩)

theorem get?_effect_of_incoming {template : Template} (h : template ∈ request.incoming library) :
    (request.effect library).templates.get? template.handle.text = some template := by
  rcases request.removes_or_registers library with (rfl | ⟨handle, rfl⟩) | ⟨heffect, -⟩
  · cases h
  · cases h
  · rw [heffect]
    exact get?_putAll_of_mem (request.nodup_incoming library) h

theorem served (library : TemplateLibrary) (request : LibraryRequest) : request.Served library := by
  rcases library.serve_cases request with ⟨error, hserve⟩ | ⟨answer, hserve, hfree⟩
  · constructor
    · intro _ _
      rw [hserve]
    · intro answer hanswer
      rw [hserve] at hanswer
      cases hanswer
    · intro answer hanswer
      rw [hserve] at hanswer
      cases hanswer
    · intro key _
      rw [hserve]
  · constructor
    · intro error herror
      rw [hserve] at herror
      cases herror
    · intro _ _ template htemplate
      rw [hserve]
      exact get?_effect_of_incoming htemplate
    · exact fun _ _ => hfree
    · intro key hnames
      rw [hserve]
      exact get?_effect_of_not_names hnames

/-- What is held after a request was brought by it or has been there before. -/
theorem mem_or_get?_of_serve {template : Template}
    (h : (library.serve request).2.templates.get? key = some template) :
    template ∈ request.incoming library ∧ template.handle.text = key ∨
      library.templates.get? key = some template := by
  rcases library.serve_cases request with ⟨error, hserve⟩ | ⟨answer, hserve, -⟩
  · rw [hserve] at h
    exact .inr h
  rw [hserve] at h
  rcases request.removes_or_registers library with (rfl | ⟨handle, rfl⟩) | ⟨heffect, -⟩
  · cases h
  · by_cases hnames : LibraryRequest.Names library key (.remove handle)
    · obtain ⟨iri, hresolve, rfl⟩ := hnames
      rw [LibraryRequest.effect, get?_remove_of_resolve hresolve] at h
      cases h
    · exact .inr ((get?_remove_of_ne hnames).symm.trans h)
  · rw [heffect] at h
    exact mem_or_get?_of_putAll h

/-- Each template stays under its own handle. -/
theorem Keyed.serve (h : library.Keyed) (request : LibraryRequest) :
    (library.serve request).2.Keyed := by
  intro key template hget
  rcases mem_or_get?_of_serve hget with ⟨-, hkey⟩ | hget
  · exact hkey
  · exact h key template hget

/-- Only a removal frees a key that is held. -/
theorem frees_of_not_mem (hkeyed : library.Keyed) (hheld : key ∈ library.handles)
    (hfreed : key ∉ (library.serve request).2.handles) : request.Frees library key := by
  obtain ⟨template, htemplate⟩ := mem_handles.mp hheld
  refine ⟨hheld, hfreed, ?_⟩
  rcases library.serve_cases request with ⟨error, hserve⟩ | ⟨answer, hserve, -⟩
  · rw [hserve] at hfreed
    exact absurd hheld hfreed
  rw [hserve, mem_handles] at hfreed
  rcases request.removes_or_registers library with (rfl | ⟨handle, rfl⟩) | ⟨heffect, -⟩
  · exact .inl rfl
  · refine .inr ⟨handle, template, rfl, ?_, hkeyed key template htemplate⟩
    by_cases hnames : LibraryRequest.Names library key (.remove handle)
    · obtain ⟨iri, hresolve, rfl⟩ := hnames
      have hfind : library.find? handle = some template := by
        unfold find?
        simp only [hresolve]
        exact htemplate
      rw [serve_remove, hfind]
    · exact absurd ⟨template, (get?_remove_of_ne hnames).trans htemplate⟩ hfreed
  · rw [heffect] at hfreed
    exact absurd (exists_get?_putAll ⟨template, htemplate⟩) hfreed

/-! ## Whole runs -/

theorem after_append (library : TemplateLibrary) (requests others : List LibraryRequest) :
    library.after (requests ++ others) = (library.after requests).after others :=
  List.foldl_append

theorem after_cons (library : TemplateLibrary) (request : LibraryRequest)
    (requests : List LibraryRequest) :
    library.after (request :: requests) = (library.serve request).2.after requests := rfl

theorem Keyed.after (h : library.Keyed) (requests : List LibraryRequest) :
    (library.after requests).Keyed := by
  induction requests generalizing library with
  | nil => exact h
  | cons request rest ih => exact ih (h.serve request)

theorem keyed_empty (space : String) (checker : ArgumentChecker) : (empty space checker).Keyed := by
  intro key template h
  cases h

/-- Where a key is held before a run and free after it, some request of the run has freed it. -/
theorem exists_frees (hkeyed : library.Keyed) (hheld : key ∈ library.handles)
    {requests : List LibraryRequest} (hfreed : key ∉ (library.after requests).handles) :
    ∃ early request late, requests = early ++ request :: late ∧
      request.Frees (library.after early) key := by
  induction requests generalizing library with
  | nil => exact absurd hheld hfreed
  | cons request rest ih =>
      by_cases hnext : key ∈ (library.serve request).2.handles
      · obtain ⟨early, freeing, late, rfl, hfrees⟩ := ih (hkeyed.serve request) hnext hfreed
        exact ⟨request :: early, freeing, late, rfl, hfrees⟩
      · exact ⟨[], request, rest, rfl, frees_of_not_mem hkeyed hheld hnext⟩

theorem mem_handles_of_registers (h : request.Registers library key) :
    key ∈ (library.serve request).2.handles := by
  obtain ⟨answer, hanswer⟩ := h.answered
  obtain ⟨template, htemplate, rfl⟩ := h.incoming
  exact mem_handles.mpr ⟨template, (library.served request).registered answer hanswer template htemplate⟩

theorem not_mem_handles_of_registers (h : request.Registers library key) : key ∉ library.handles := by
  obtain ⟨answer, hanswer⟩ := h.answered
  obtain ⟨template, htemplate, rfl⟩ := h.incoming
  rw [mem_handles, (library.served request).free answer hanswer h.isNew template htemplate]
  rintro ⟨_, ⟨⟩⟩

/-- Whatever a library is asked for, every template stands under its own handle, the handles are
answered in ascending order, each request does all that it is meant to do or nothing, and between two
registrations under one key that may not replace anything, the key is freed. -/
theorem integrity_after (space : String) (checker : ArgumentChecker) (requests : List LibraryRequest) :
    ((empty space checker).after requests).Keyed ∧
      (∃ texts, (((empty space checker).after requests).serve .handles).1 = .ok (.handles texts) ∧
        texts.Pairwise (· < ·) ∧ ∀ key, key ∈ texts ↔
          ∃ template, ((empty space checker).after requests).templates.get? key = some template) ∧
      (∀ request, LibraryRequest.Served ((empty space checker).after requests) request) ∧
      ∀ before first middle second behind key,
        requests = before ++ first :: (middle ++ second :: behind) →
        LibraryRequest.Registers ((empty space checker).after before) key first →
        LibraryRequest.Registers ((empty space checker).after (before ++ first :: middle)) key second →
        ∃ early freeing late, middle = early ++ freeing :: late ∧
          LibraryRequest.Frees ((empty space checker).after (before ++ first :: early)) key freeing := by
  refine ⟨(keyed_empty space checker).after requests, ?_, served _, ?_⟩
  · refine ⟨_, congrArg Prod.fst (Serving.run_look _ _), ?_, fun _ => mem_handles⟩
    exact List.pairwise_map.mpr (SortedMap.ascending _)
  · rintro before first middle second behind key - hfirst hsecond
    have hkeyed := ((keyed_empty space checker).after before).serve first
    have hheld := mem_handles_of_registers hfirst
    have hfree := not_mem_handles_of_registers hsecond
    rw [after_append, after_cons] at hfree
    obtain ⟨early, freeing, late, hmiddle, hfrees⟩ := exists_frees hkeyed hheld hfree
    refine ⟨early, freeing, late, hmiddle, ?_⟩
    rwa [after_append, after_cons]

/-- The template of the query over the last hour of a stream. -/
def hourlyTemplate : Template :=
  ⟨⟨"http://w3id.org/rsp/templates/hourly", by decide +kernel⟩, Query.hourly, [], none, none⟩

/-- A template is registered, taken away by its short handle, and registered again. -/
theorem integrity_after_hourly :
    let library := empty standardSpace ArgumentChecker.standard
    let request := LibraryRequest.add hourlyTemplate false
    let key := "http://w3id.org/rsp/templates/hourly"
    LibraryRequest.Registers (library.after []) key request ∧
      LibraryRequest.Registers (library.after [request, .remove "hourly"]) key request ∧
      ∃ early freeing late, [LibraryRequest.remove "hourly"] = early ++ freeing :: late ∧
        LibraryRequest.Frees (library.after ([] ++ request :: early)) key freeing := by
  intro library request key
  have hregisters : ∀ requests, (library.after requests).templates.contains key = false →
      LibraryRequest.Registers (library.after requests) key request := by
    intro requests hfree
    have hnot : ¬ (!false && (library.after requests).templates.contains key) = true := by
      rw [hfree]
      exact Bool.false_ne_true
    have hserve := (Serving.run_add hourlyTemplate false (library.after requests)).trans (if_neg hnot)
    exact ⟨⟨.added hourlyTemplate, congrArg Prod.fst hserve⟩, rfl, hourlyTemplate,
      List.mem_singleton_self _, rfl⟩
  have hfirst := hregisters [] rfl
  have hsecond := hregisters [request, .remove "hourly"] (by decide +kernel)
  exact ⟨hfirst, hsecond, (integrity_after standardSpace ArgumentChecker.standard _).2.2.2
    [] request [.remove "hourly"] request [] key rfl hfirst hsecond⟩

end TemplateLibrary

end StreamQuery
