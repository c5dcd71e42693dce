import StreamQuery.Proofs.Query.Body
import StreamQuery.Proofs.Template.Bare

/-! # Instantiation

Instantiation hands out a text without reading it. Where the values of the arguments fit into their
places, the text is read as the query with these values; elsewhere it need not be.
-/

namespace StreamQuery

open Text Lexeme Token QueryReader

namespace WindowSlot

/-- Every slot that is found in a text has its own tokens, and its value can stand there bare. -/
def Readable (text : String) : Prop := Aligned (fun _ slot => slot.IsReadable) none text.toList

/-- Cleaning a readable text bares values of slots. -/
theorem Readable.bared {text : String} {ts : List Token} (h : Readable text)
    (hread : Token.read text = .ok ts) :
    ∃ us, Token.read (clean text) = .ok us ∧ Bared false ts us := by
  obtain ⟨split, hsplit, rfl⟩ := read_eq_ok_iff_segmentsOf.mp hread
  obtain ⟨-, us, hus, hcleaned⟩ := Aligned.cleans hsplit h
  refine ⟨us, read_eq_ok_iff.mpr ?_, hcleaned.bared (fun _ _ hreadable => hreadable) false⟩
  rwa [clean, String.toList_ofList]

end WindowSlot

namespace QueryReader

theorem lexical_of_read {text : String} {ts : List Token} (h : Token.read text = .ok ts) :
    ∀ t ∈ ts, t.Lexical :=
  lexical_of_tokens? (read_eq_ok_iff.mp h)

theorem WindowExchanged.refl (window : Window) : WindowExchanged Eq (fun _ => Eq) window window where
  id := rfl
  stream := rfl
  frame := by
    cases window.frame with
    | logical => exact .logical rfl
    | past => exact .past rfl rfl
    | physical => exact .physical rfl
  step := by
    cases window.step with
    | none => exact .none
    | some => exact .some rfl

theorem readQuery_bared {ts us : List Token} {query : Query} {behindWindow : Bool}
    (h : readQuery ts = .ok query) (hus : Bared behindWindow ts us)
    (hprefixes : query.prologue.prefixes.Declared) (hids : (query.windows.map Window.id).Nodup)
    (hlexical : ∀ t ∈ ts, t.Lexical) (hlexical' : ∀ u ∈ us, u.Lexical) :
    ∃ query', readQuery us = .ok query' ∧ QueryExchanged Eq (fun _ => Eq) query query' ∧
      query'.windows = query.windows ∧ query'.output = query.output := by
  refine (Bared.exchange query.prologue.prefixes).readQuery h ⟨_, hus⟩ hprefixes hlexical hlexical'
    (List.forall₂_same.mpr fun window _ => .refl window) hids ?_ fun p _ name _ => ⟨name, rfl⟩
  cases query.output with
  | none => exact .none
  | some => exact .some rfl

end QueryReader

namespace Bindings

/-- Values that fit into the places of a query, and the windows and the output stream that these turn
into: only IRIs stand for names, and only durations and counts in the slots of windows. -/
structure Fits (bindings : Bindings) (query : Query) (windows : List Window) (output : Option Term) :
    Prop where
  ids : (windows.map Window.id).Nodup
  windows : List.Forall₂ (WindowExchanged bindings.Names bindings.Fills) query.windows windows
  output : Option.Rel bindings.Names query.output output
  blocks : ∀ p ∈ query.body.pattern, ∀ name ∈ p.windowNames, ∃ name', bindings.Names name name'
  apart : ∀ ts, Token.read query.nativeText = .ok ts → bindings.Apart ts
  slots : ∀ text, bindings.substitute query.nativeText = .ok text → WindowSlot.Readable text

variable {bindings : Bindings} {query : Query} {windows : List Window} {output : Option Term}

/-- Values that fit are read in their places. -/
theorem Fits.read (h : bindings.Fits query windows output) (hlegal : bindings.Legal)
    (hparse : Query.parse query.nativeText = .ok query) : ∃ text query',
      bindings.substitute query.nativeText = .ok text ∧ Query.read (WindowSlot.clean text) = .ok query' ∧
        query'.windows = windows ∧ query'.output = output ∧ query'.operator = query.operator ∧
        query'.prologue = query.prologue ∧ query'.form = query.form ∧
        query'.body.dataset = query.body.dataset := by
  obtain ⟨hreading, -⟩ := Query.reading_of_parse hparse
  obtain ⟨hread, -⟩ := Query.parse_eq_ok_iff.mp hparse
  obtain ⟨ts, htext, hquery⟩ := bind_eq_ok_iff.mp hread
  have hts := mapError_eq_ok_iff.mp htext
  obtain ⟨split, hsplit, hsegments⟩ := read_eq_ok_iff_segmentsOf.mp hts
  -- values take the places of variables
  have hsubstitute : bindings.substitute query.nativeText =
      .ok (String.ofList (bindings.expand split).text) := substitute_eq_ok_iff.mpr ⟨split, hsplit, rfl⟩
  have hvalues : Token.read (String.ofList (bindings.expand split).text) =
      .ok (ts.flatMap bindings.tokens) := by
    rw [← hsegments]
    exact read_eq_ok_iff_segmentsOf.mpr ⟨_, settled_expand (Query.steady_nativeText hreading) hsplit hlegal,
      bindings.map_token_expand split⟩
  obtain ⟨between, hbetween, hexchanged, rfl, rfl⟩ :=
    (bindings.exchange query.prologue.prefixes).readQuery hquery ⟨rfl, h.apart ts hts⟩
      hreading.prologue.prefixes (lexical_of_read hts) (lexical_of_read hvalues) h.windows h.ids h.output
      h.blocks
  -- values of slots are bared
  obtain ⟨us, hus, hbared⟩ := (h.slots _ hsubstitute).bared hvalues
  obtain ⟨query', hquery', hsame, hwindows, houtput⟩ := readQuery_bared hbetween hbared
    (hexchanged.prologue ▸ hreading.prologue.prefixes) h.ids (lexical_of_read hvalues)
    (lexical_of_read hus)
  exact ⟨_, query', hsubstitute, bind_eq_ok_iff.mpr ⟨us, mapError_eq_ok_iff.mpr hus, hquery'⟩, hwindows,
    houtput, hsame.operator.trans hexchanged.operator, hsame.prologue.trans hexchanged.prologue,
    hsame.form.trans hexchanged.form, hsame.dataset.trans hexchanged.dataset⟩

end Bindings

namespace Template

theorem instantiateUnchecked_of_instantiate {template : Template} {bindings : Bindings} {result : String}
    (h : template.instantiate bindings = .ok result) :
    template.instantiateUnchecked bindings = .ok result := by
  unfold instantiate at h
  split at h
  · exact h
  · cases h

/-- If the values of arguments fit into the query of a template, the text that it is instantiated to is
read: with these values in its windows and for its output stream, and otherwise as the query. -/
theorem read_instantiate {template : Template} (hbuilt : template.Built)
    (hparse : Query.parse template.body.nativeText = .ok template.body) (checker : ArgumentChecker)
    (parameters : List (String × String)) {windows : List Window} {output : Option Term}
    (hfits : (checker.createBindings template parameters).bindings.Fits template.body windows output) :
    let bindings := (checker.createBindings template parameters).bindings
    ∃ result query, template.instantiateUnchecked bindings = .ok result ∧
      (∀ text, template.instantiate bindings = .ok text → text = result) ∧
      Query.read result = .ok query ∧ query.windows = windows ∧ query.output = output ∧
      query.operator = template.body.operator ∧ query.prologue = template.body.prologue ∧
      query.form = template.body.form ∧ query.body.dataset = template.body.body.dataset := by
  intro bindings
  have hlegal := (ArgumentChecker.valuesOf_createBindings hbuilt checker parameters).legal
  obtain ⟨text, query, hsubstitute, hread, hquery⟩ := hfits.read hlegal hparse
  have hresult : template.instantiateUnchecked bindings = .ok (WindowSlot.clean text) :=
    bind_eq_ok_iff.mpr ⟨text, mapError_eq_ok_iff.mpr hsubstitute, rfl⟩
  refine ⟨_, query, hresult, fun other hother => ?_, hread, hquery⟩
  exact Except.ok.inj ((instantiateUnchecked_of_instantiate hother).symm.trans hresult)

/-- The variables of a query that stand for a stream and for a range of it. -/
def streamVariable : Variable := ⟨"stream", by decide +kernel⟩

def rangeVariable : Variable := ⟨"range", by decide +kernel⟩

/-- A stream. -/
def sensors : Iri := ⟨"http://a/sensors", by decide +kernel⟩

/-- The window of a range of a stream. -/
def rangeWindow (stream range : Term) : Window :=
  ⟨.iri ⟨"http://a/range", by decide +kernel⟩, stream, .logical range, none⟩

/-- A query over a range of a stream, both of which are variables. -/
def rangeQuery : Query where
  prologue := .empty
  body := {
    form := .select none [.variable "s"]
    dataset := []
    pattern := some (.run [.variable "s", .variable "p", .variable "o"] .nil)
    modifiers := [] }
  windows := [rangeWindow (.variable streamVariable) (.variable rangeVariable)]
  output := none
  operator := .unspecified

/-- The template of the query over a range of a stream, with an argument for each of the two. -/
def rangeTemplate : Template where
  handle := TemplateLibrary.knowsTemplate.handle
  body := rangeQuery
  arguments := [⟨"range", some Vocabulary.xsdDuration, false, none, none, none⟩,
    ⟨"stream", none, false, none, none, none⟩]
  label := none
  comment := none

theorem parse_rangeQuery : Query.parse rangeQuery.nativeText = .ok rangeQuery := by decide +kernel

/-- The query mentions the range and the stream, and does not answer with them. -/
theorem rangeQuery_free : ∀ name ∈ ["range", "stream"], Free rangeQuery name := by
  have hsorted : Window.sorted rangeQuery.windows = rangeQuery.windows := List.mergeSort_singleton _
  simp only [Free, Oracle.hasVariable, Oracle.isProjected, Graph.hasVariable, Graph.isProjected,
    Graph.listedVariables, Graph.isVariableNamed, Graph.hasType, List.any_append, List.any_flatMap,
    List.contains_eq_any_beq, Graph.any_objects, Query.graph, Query.graphWith, Encoder.query, hsorted]
  decide +kernel

theorem rangeTemplate_built : rangeTemplate.Built := by
  have hmade : ofQuery rangeQuery "<http://w3id.org/rsp/templates/knows>" =
      .ok { rangeTemplate with arguments := [] } := by decide +kernel
  have hrange : declareWith { rangeTemplate with arguments := [] }
      ⟨"range", some "xsd:duration", none, false, none, none⟩ PrefixMapping.standard =
        .ok { rangeTemplate with arguments := rangeTemplate.arguments.take 1 } := by
    refine bind_eq_ok_iff.mpr ⟨(), checkName_eq_ok_iff.mpr
      ⟨by decide, nofun, rangeQuery_free _ (by decide)⟩, ?_⟩
    refine bind_eq_ok_iff.mpr ⟨some Vocabulary.xsdDuration, by decide +kernel, ?_⟩
    exact congrArg (fun arguments => Except.ok { rangeTemplate with arguments := arguments })
      (List.mergeSort_singleton _)
  have hstream : declareWith { rangeTemplate with arguments := rangeTemplate.arguments.take 1 }
      ⟨"stream", none, none, false, none, none⟩ PrefixMapping.standard = .ok rangeTemplate := by
    refine bind_eq_ok_iff.mpr ⟨(), checkName_eq_ok_iff.mpr
      ⟨by decide, by decide, rangeQuery_free _ (by decide)⟩, ?_⟩
    exact congrArg (fun arguments => Except.ok { rangeTemplate with arguments := arguments })
      (@sortArguments_of_perm _ rangeTemplate.arguments (.refl _) (by decide))
  exact .declare (.declare (.ofQuery hmade) hrange) hstream

/-- The text of the query with a stream and a range, before it is cleaned. -/
def rangeText : String :=
  "SELECT ?s\nFROM NAMED WINDOW <http://a/range> ON <http://a/sensors> " ++
    "[RANGE \"PT1H\"^^<http://www.w3.org/2001/XMLSchema#duration>]\nWHERE \x7b\n  ?s ?p ?o\n\x7d\n"

theorem readable_rangeText : WindowSlot.Readable rangeText := by
  obtain ⟨split, hsplit, hk, hfront⟩ : ∃ split ∈ (segmentsOf rangeText.toList).toOption,
      ∃ h : 9 < split.1.length,
        ((split.1.take 9).flatMap Segment.text ++ split.1[9].gap).length = 68 := by
    decide +kernel
  refine @WindowSlot.aligned_of_once _ _ _ _ "RANGE PT1H".toList _ _ 57 (ok_of_mem_toOption hsplit) hk hfront
    (by decide +kernel) (by decide +kernel) (stops_of_head? (c := ']') (by decide +kernel) (by decide)) ?_
  intro slot rest htext hvalid hkept
  have hvalue : slot.value = "PT1H".toList := by
    rw [hvalid.value_eq htext hkept]
    decide +kernel
  rw [WindowSlot.TypedSlot.IsReadable, hvalue]
  exact .inl ⟨by decide, rfl⟩

/-- Values that are an IRI and a duration are read in a window. -/
theorem read_instantiate_range :
    let bindings := (ArgumentChecker.standard.createBindings rangeTemplate
      [("stream", "http://a/sensors"), ("range", "PT1H")]).bindings
    let window := rangeWindow (.iri sensors)
      (.literal (.typed "PT1H" "http://www.w3.org/2001/XMLSchema#duration"))
    rangeTemplate.Built ∧ Query.parse rangeTemplate.body.nativeText = .ok rangeTemplate.body ∧
      bindings.Fits rangeTemplate.body [window] none ∧
      ∃ result query, rangeTemplate.instantiateUnchecked bindings = .ok result ∧
        Query.read result = .ok query ∧ query.windows = [window] := by
  intro bindings window
  have hstream : bindings.get? "stream" = some (.iri sensors) := by decide +kernel
  have hrange : bindings.get? "range" =
      some (.literal (.typed "PT1H" "http://www.w3.org/2001/XMLSchema#duration")) := by decide +kernel
  have hwindow : WindowExchanged bindings.Names bindings.Fills
      (rangeWindow (.variable streamVariable) (.variable rangeVariable)) window :=
    { id := .iri _
      stream := .bound hstream
      frame := .logical (.duration (l := .typed "PT1H" "http://www.w3.org/2001/XMLSchema#duration") hrange
        (.inr ⟨_, rfl⟩) (by decide) (by decide))
      step := .none }
  have hfits : bindings.Fits rangeTemplate.body [window] none :=
    { ids := List.nodup_singleton _
      windows := .cons hwindow .nil
      output := .none
      blocks := by
        rintro _ ⟨⟩ name hname
        cases hname
      apart := by
        intro ts hts
        obtain ⟨found, hfound, hpairs⟩ : ∃ found ∈ (Token.read rangeQuery.nativeText).toOption,
            ∀ pair ∈ found.zip found.tail, pair.1.isWord "FROM" ∨ pair.1.isWord "TO" →
              pair.2.variableName? = none := by decide +kernel
        cases hts.symm.trans (ok_of_mem_toOption hfound)
        exact .of_pairs hpairs
      slots := by
        intro text htext
        have hrangeText : bindings.substitute rangeQuery.nativeText = .ok rangeText := by decide +kernel
        cases htext.symm.trans hrangeText
        exact readable_rangeText }
  obtain ⟨result, query, hresult, -, hread, hwindows, -⟩ := read_instantiate rangeTemplate_built
    parse_rangeQuery ArgumentChecker.standard [("stream", "http://a/sensors"), ("range", "PT1H")] hfits
  exact ⟨rangeTemplate_built, parse_rangeQuery, hfits, result, query, hresult, hread, hwindows⟩

/-- A value that is no IRI is put into the text as the name of a stream, and the text is handed out although
it cannot be read. -/
theorem instantiate_unread :
    let bindings := (ArgumentChecker.standard.createBindings rangeTemplate
      [("stream", "hello world"), ("range", "PT1H")]).bindings
    rangeTemplate.Built ∧ Query.parse rangeTemplate.body.nativeText = .ok rangeTemplate.body ∧
      ∃ text, rangeTemplate.instantiate bindings = .ok text ∧
        Query.read text = .error (.unexpected "IRI or variable" "\"hello world\"") := by
  intro bindings
  exact ⟨rangeTemplate_built, parse_rangeQuery,
    "SELECT ?s\nFROM NAMED WINDOW <http://a/range> ON \"hello world\" [RANGE PT1H]\n" ++
      "WHERE \x7b\n  ?s ?p ?o\n\x7d\n", by decide +kernel, by decide +kernel⟩

end Template

end StreamQuery
