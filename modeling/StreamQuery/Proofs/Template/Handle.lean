import StreamQuery.Proofs.Prefixes
import StreamQuery.Proofs.Template.Requests

/-! # Finding templates by their handles

A handle is looked up by what it expands to. So a template is found by its own IRI if the prefixes
leave that IRI alone, which they need not do: `spin:daily` is an absolute IRI and an abbreviation.
-/

namespace StreamQuery

open Text Lexeme

theorem isBlank_of_isAlpha {c : Char} (h : c.isAlpha) : isBlank c = false := by
  rw [isAlpha_iff_toNat] at h
  simp only [isBlank, Bool.or_eq_false_iff, Bool.and_eq_false_iff, decide_eq_false_iff_not,
    beq_eq_false_iff_ne]
  omega

namespace Iri

/-- Dropping the blanks around an IRI leaves the colon behind its scheme, and no bracket. -/
theorem exists_trimmed (iri : Iri) : ∃ first others rest,
    (trimmed iri.text).toList = first :: others ++ ':' :: rest ∧ first.isAlpha := by
  obtain ⟨first, others, rest, heq, hfirst, -, -⟩ := IriGrammar.exists_scheme iri.absolute
  have hopen := iri.dropWhile_text_append (fun _ => isBlank_of_isAlpha) []
  rw [List.append_nil] at hopen
  have hclose : (':' :: (first :: others).reverse).dropWhile isBlank =
      ':' :: (first :: others).reverse := List.dropWhile_cons_of_neg (by decide)
  refine ⟨first, others, (rest.reverse.dropWhile isBlank).reverse, ?_, hfirst⟩
  rw [trimmed, String.toList_ofList, trim, hopen, heq, List.reverse_append, List.reverse_cons,
    List.append_assoc, List.singleton_append, List.dropWhile_append, hclose]
  split
  · next hnil =>
    rw [List.isEmpty_iff.mp hnil]
    simp
  · simp

theorem withoutBrackets_trimmed (iri : Iri) : withoutBrackets (trimmed iri.text) = none := by
  obtain ⟨first, others, rest, htrim, hfirst⟩ := iri.exists_trimmed
  unfold withoutBrackets
  rw [htrim]
  split
  · next hopen =>
    rw [(List.cons_eq_cons.mp hopen).1] at hfirst
    exact absurd hfirst (by decide)
  · rfl

theorem trimmed_bracketed (iri : Iri) : trimmed iri.bracketed = iri.bracketed := by
  have hopen : iri.bracketed.toList.dropWhile isBlank = iri.bracketed.toList := by
    rw [toList_bracketed]
    exact List.dropWhile_cons_of_neg (by decide)
  have hclose : ('>' :: ('<' :: iri.text.toList).reverse).dropWhile isBlank =
      '>' :: ('<' :: iri.text.toList).reverse := List.dropWhile_cons_of_neg (by decide)
  rw [trimmed, trim, hopen, toList_bracketed, ← List.cons_append, List.reverse_append,
    List.reverse_singleton, List.singleton_append, hclose, ← List.singleton_append,
    ← List.reverse_singleton, ← List.reverse_append, List.reverse_reverse, List.cons_append,
    ← toList_bracketed, String.ofList_toList]

end Iri

namespace TemplateHandle

variable {space : String} {prefixes : PrefixMapping} {found : Iri}

theorem isShort_eq_false {cs : List Char} (h : ':' ∈ cs) : isShort cs = false := by
  rw [isShort, Bool.and_eq_false_iff]
  refine .inr (Bool.eq_false_iff.mpr fun hall => ?_)
  exact absurd (List.all_eq_true.mp hall ':' h) (by decide)

/-- What is no short handle stands for what it expands to. -/
theorem resolve_eq_ok_iff {handle text : String}
    (htext : (withoutBrackets (trimmed handle)).getD (trimmed handle) = text) (h : ':' ∈ text.toList) :
    resolve handle space prefixes = .ok found ↔ prefixes.expand text = found.text := by
  unfold resolve
  simp only [htext, isShort_eq_false h, Bool.false_eq_true, if_false]
  split
  · next iri hiri =>
    rw [← Iri.text_of_ofString? hiri]
    exact ⟨fun h => congrArg Iri.text (Except.ok.inj h), fun h => congrArg Except.ok (Iri.ext_text h)⟩
  · next hnone =>
    refine iff_of_false nofun fun h => ?_
    rw [h, Iri.ofString?_text] at hnone
    cases hnone

theorem resolve_text_eq_ok_iff (iri : Iri) :
    resolve iri.text space prefixes = .ok found ↔
      prefixes.expand (trimmed iri.text) = found.text := by
  obtain ⟨first, others, rest, htrim, -⟩ := iri.exists_trimmed
  exact resolve_eq_ok_iff (by rw [iri.withoutBrackets_trimmed, Option.getD_none]) (by simp [htrim])

theorem resolve_bracketed_eq_ok_iff (iri : Iri) :
    resolve iri.bracketed space prefixes = .ok found ↔ prefixes.expand iri.text = found.text := by
  have hbrackets : withoutBrackets iri.bracketed = some iri.text := by
    unfold withoutBrackets
    rw [iri.toList_bracketed]
    simp
  obtain ⟨first, others, rest, heq, -⟩ := IriGrammar.exists_scheme iri.absolute
  exact resolve_eq_ok_iff (by rw [iri.trimmed_bracketed, hbrackets, Option.getD_some])
    (by simp [heq])

end TemplateHandle

namespace TemplateLibrary

variable {library : TemplateLibrary} {handle : String} {template : Template}

theorem space_checker_putAll (library : TemplateLibrary) (templates : List Template) :
    (templates.foldl put library).space = library.space ∧
      (templates.foldl put library).checker = library.checker := by
  induction templates generalizing library with
  | nil => exact ⟨rfl, rfl⟩
  | cons first rest ih => exact ih (library.put first)

/-- A request changes neither the namespace nor the prefixes. -/
theorem space_checker_serve (library : TemplateLibrary) (request : LibraryRequest) :
    (library.serve request).2.space = library.space ∧
      (library.serve request).2.checker = library.checker := by
  rcases library.serve_cases request with ⟨error, hserve⟩ | ⟨answer, hserve, -⟩
  · rw [hserve]
    exact ⟨rfl, rfl⟩
  rw [hserve]
  rcases request.removes_or_registers library with (rfl | ⟨name, rfl⟩) | ⟨heffect, -⟩
  · exact ⟨rfl, rfl⟩
  · change (library.remove name).space = library.space ∧ (library.remove name).checker = library.checker
    unfold remove
    split
    · exact ⟨rfl, rfl⟩
    · exact ⟨rfl, rfl⟩
  · rw [heffect]
    exact library.space_checker_putAll _

theorem resolve_after (library : TemplateLibrary) (requests : List LibraryRequest) (name : String) :
    (library.after requests).resolve name = library.resolve name := by
  induction requests generalizing library with
  | nil => rfl
  | cons request rest ih =>
      obtain ⟨hspace, hchecker⟩ := library.space_checker_serve request
      rw [after_cons, ih, resolve, hspace, hchecker, resolve]

/-- A held template is found by a name that stands for its handle, and by no other one. -/
theorem find?_eq_some_iff (hkeyed : library.Keyed)
    (hheld : library.templates.get? handle = some template) (name : String) :
    library.find? name = some template ↔ ∃ iri, library.resolve name = .ok iri ∧ iri.text = handle := by
  unfold find?
  cases hresolve : library.resolve name with
  | error error =>
      constructor
      · intro hget
        cases hget
      · rintro ⟨iri, hiri, -⟩
        cases hiri
  | ok iri =>
      constructor
      · intro hget
        exact ⟨iri, rfl, (hkeyed _ _ hget).symm.trans (hkeyed _ _ hheld)⟩
      · rintro ⟨found, hfound, rfl⟩
        cases hfound
        exact hheld

/-- A name reaches a handle: it finds the template that is held there, and takes away just that. -/
structure Reaches (library : TemplateLibrary) (name handle : String) : Prop where
  found : ∃ template, library.templates.get? handle = some template ∧
    library.find? name = some template
  removed : ∀ key, (library.remove name).templates.get? key =
    if key = handle then none else library.templates.get? key

theorem reaches_iff (hkeyed : library.Keyed) (hheld : handle ∈ library.handles) (name : String) :
    library.Reaches name handle ↔ ∃ iri, library.resolve name = .ok iri ∧ iri.text = handle := by
  obtain ⟨template, htemplate⟩ := mem_handles.mp hheld
  constructor
  · rintro ⟨⟨found, hfound, hfind⟩, -⟩
    exact (find?_eq_some_iff hkeyed hfound name).mp hfind
  · intro hresolve
    refine ⟨⟨template, htemplate, (find?_eq_some_iff hkeyed htemplate name).mpr hresolve⟩, ?_⟩
    obtain ⟨iri, hiri, rfl⟩ := hresolve
    intro key
    split
    · next heq =>
      rw [heq, get?_remove_of_resolve hiri]
    · next hne =>
      refine get?_remove_of_ne fun ⟨other, hother, htext⟩ => hne ?_
      cases hiri.symm.trans hother
      exact htext.symm

/-- Of a held handle, the IRI in brackets reaches it just if the prefixes do not expand it, and the bare
IRI does just if, apart from blanks at its end, they do not expand it either. With an authority behind
the scheme, there is nothing to expand. -/
theorem reaches_handle_iff (space : String) (checker : ArgumentChecker)
    (requests : List LibraryRequest) :
    ∀ handle ∈ ((empty space checker).after requests).handles,
      (((empty space checker).after requests).Reaches ("<" ++ handle ++ ">") handle ↔
        checker.prefixes.expand handle = handle) ∧
      (((empty space checker).after requests).Reaches handle handle ↔
        checker.prefixes.expand (trimmed handle) = handle) ∧
      ∀ scheme rest, ':' ∉ scheme → handle.toList = scheme ++ ':' :: '/' :: '/' :: rest →
        ((empty space checker).after requests).Reaches ("<" ++ handle ++ ">") handle := by
  intro handle hheld
  have hkeyed := (keyed_empty space checker).after requests
  obtain ⟨template, htemplate⟩ := mem_handles.mp hheld
  obtain rfl := hkeyed handle template htemplate
  have hreaches : ∀ name full,
      (∀ found, TemplateHandle.resolve name space checker.prefixes = .ok found ↔ full = found.text) →
      (((empty space checker).after requests).Reaches name template.handle.text ↔
        full = template.handle.text) := by
    intro name full hname
    rw [reaches_iff hkeyed hheld, resolve_after]
    constructor
    · rintro ⟨iri, hiri, htext⟩
      exact ((hname iri).mp hiri).trans htext
    · intro hfull
      exact ⟨template.handle, (hname template.handle).mpr hfull, rfl⟩
  have hbracketed := hreaches template.handle.bracketed _ fun _ =>
    TemplateHandle.resolve_bracketed_eq_ok_iff template.handle
  refine ⟨hbracketed, ?_, fun scheme rest hscheme hhandle => hbracketed.mpr ?_⟩
  · exact hreaches template.handle.text _ fun _ =>
      TemplateHandle.resolve_text_eq_ok_iff template.handle
  · rw [PrefixMapping.expand, PrefixMapping.expand?, hhandle, PrefixMapping.splitFirst_append hscheme]
    rfl

/-- A template under an absolute IRI that is an abbreviation as well. -/
def dailyTemplate : Template :=
  ⟨⟨"spin:daily", by decide +kernel⟩, Query.hourly, [], none, none⟩

/-- Of two templates that are held, one is reached by either form of its handle, and `spin:daily` by
none. -/
theorem reaches_handle_hourly_daily :
    let library := (empty standardSpace ArgumentChecker.standard).after
      [.add hourlyTemplate false, .add dailyTemplate false]
    let hourly := "http://w3id.org/rsp/templates/hourly"
    let daily := "spin:daily"
    library.handles = [hourly, daily] ∧
      library.Reaches ("<" ++ hourly ++ ">") hourly ∧ library.Reaches hourly hourly ∧
      ¬ library.Reaches ("<" ++ daily ++ ">") daily ∧ ¬ library.Reaches daily daily := by
  intro library hourly daily
  have hhandles : library.handles = [hourly, daily] := by decide +kernel
  have hreaches := reaches_handle_iff standardSpace ArgumentChecker.standard
    [.add hourlyTemplate false, .add dailyTemplate false]
  have hhourly := hreaches hourly (hhandles ▸ List.mem_cons_self)
  have hdaily := hreaches daily (hhandles ▸ List.mem_cons_of_mem _ List.mem_cons_self)
  refine ⟨hhandles, hhourly.2.2 "http".toList "w3id.org/rsp/templates/hourly".toList ?_ ?_,
    hhourly.2.1.mpr ?_, fun h => ?_, fun h => ?_⟩
  · decide
  · decide
  · decide +kernel
  · exact absurd (hdaily.1.mp h) (by decide +kernel)
  · exact absurd (hdaily.2.1.mp h) (by decide +kernel)

end TemplateLibrary

end StreamQuery
