import Mathlib.Data.List.Perm.Basic
import StreamQuery.Codec.Decode
import StreamQuery.Proofs.Codec.Encoded
import StreamQuery.Proofs.Query.RoundTrip
import StreamQuery.Proofs.Window

/-! # Queries through graphs and back

Each look-up of the decoder is answered by what the encoder has written. So terms, windows and queries
come out as they went in, with the windows in the order of their nodes.
-/

namespace StreamQuery

namespace Query

/-- Queries that were read from a text and changed by declarations since. -/
inductive Built : Query → Prop where
  | read {text : String} {query : Query} (h : Query.read text = .ok query) : Built query
  | addWindow {query query' : Query} {window : Window} (h : Built query)
      (hadd : query.addWindow window = .ok query') : Built query'
  | setOutputStream {query : Query} (h : Built query) (stream : Term) (operator : OutputOperator) :
      Built (query.setOutputStream stream operator)
  | setOutputOperator {query : Query} (h : Built query) (operator : OutputOperator) :
      Built (query.setOutputOperator operator)

theorem Built.nodup {query : Query} (h : query.Built) : (query.windows.map Window.id).Nodup := by
  induction h with
  | read h =>
      obtain ⟨ts, -, hquery⟩ := bind_eq_ok_iff.mp h
      obtain ⟨parts⟩ := QueryReader.parts_of_readQuery hquery
      have hids := nodup_addWindows parts.names List.nodup_nil
      exact hids
  | addWindow _ hadd ih => exact nodup_addWindow hadd ih
  | setOutputStream _ _ _ ih => exact ih
  | setOutputOperator _ _ ih => exact ih

/-- A query that has the body of another one, and that what a graph says of the other one makes equal
to it: it has no windows, and no output stream if the other one has none. -/
structure IsBodyOf (found query : Query) : Prop where
  prologue : found.prologue = query.prologue
  body : found.body = query.body
  windows : found.windows = []
  output : query.output = none → found.output = none

theorem IsBodyOf.ofBody (query : Query) : (Query.ofBody query.prologue query.body).IsBodyOf query :=
  ⟨rfl, rfl, rfl, fun _ => rfl⟩

end Query

theorem Graph.term_ofBlank {graph : Graph} {label name : String} {value : Variable}
    (hname : graph.literalValue? (Node.blank label).text Vocabulary.varName = some name)
    (hvalue : Variable.ofString? name = some value) :
    graph.term (.ofBlank label) = .ok (.variable value) := by
  unfold Object.ofBlank Graph.term
  simp only [hname, hvalue]

namespace Encoding

variable {e : Encoding} {i : Nat} {term : Term} {object : Object} {property : Iri} {window : Window}
  {properties : List (Iri × Object)} {query : Query}

/-- An encoding from which terms can be read. It need not have been written at once. -/
structure Readable (e : Encoding) : Prop where
  distinct : Function.Injective e.supply
  named : ∀ name label, e.labels.get? name = some label →
    ∃ i, label = e.supply i ∧ e.Has i (variableProperties name)

theorem Sound.readable (h : e.Sound) : e.Readable where
  distinct := h.distinct
  named name label hlabel := by
    obtain ⟨i, -, heq, hhas⟩ := h.named name label hlabel
    exact ⟨i, heq, hhas⟩

/-- The text of a numbered node. -/
def nodeText (e : Encoding) (i : Nat) : String := (Node.blank (e.supply i)).text

/-- Nodes that are read as different values are different nodes, and are read in the order of their
texts. -/
theorem exists_read {α : Type} {read : String → Except CodecError α} {values : List α} {nodes : List Nat}
    {node : Node} (hread : e.Readable)
    (hvalues : List.Forall₂ (fun value i => read (e.nodeText i) = .ok value) values nodes)
    (hdistinct : values.Nodup)
    (hobjects : ∀ object, ⟨node, property, object⟩ ∈ e.graph.triples ↔
      object ∈ nodes.map fun i => .ofBlank (e.supply i)) :
    ∃ found, List.Forall₂ (fun object value => read object.text = .ok value)
      (e.graph.objects node.text property) found ∧ found.Perm values := by
  have hapart : (nodes.map fun i => read (e.nodeText i)).Nodup := by
    rw [← map_eq_map_of_forall₂ hvalues (f := .ok) fun _ _ _ h => h.symm]
    exact hdistinct.map fun _ _ => Except.ok.inj
  have hnodup : (nodes.map fun i => Object.ofBlank (e.supply i)).Nodup :=
    hapart.of_map.map fun i j h => hread.distinct (Node.blank.inj (Object.node.inj h))
  have hflip : List.Forall₂ (fun object value => read object.text = .ok value)
      (nodes.map fun i => Object.ofBlank (e.supply i)) values := by
    rw [List.forall₂_map_left_iff]
    exact hvalues.flip
  exact List.perm_comp_forall₂ (Graph.objects_perm hnodup hobjects) hflip

/-! ## Looking up the properties of a node -/

theorem object?_eq {found : Option Object}
    (h : ∀ value, e.Says i property value ↔ value ∈ found.toList) :
    e.graph.object? (e.nodeText i) property = found := by
  cases found with
  | none => exact Graph.object?_eq_none fun value hvalue => List.not_mem_nil ((h value).mp hvalue)
  | some object => exact Graph.object?_eq_some fun value => (h value).trans List.mem_singleton

namespace Has

variable (h : e.Has i properties)

include h

theorem object?_of_mem (hkeys : (properties.map Prod.fst).Nodup)
    (hmem : (property, object) ∈ properties) :
    e.graph.object? (e.nodeText i) property = some object := by
  refine Graph.object?_eq_some fun value => (h property value).trans ⟨fun hvalue => ?_, ?_⟩
  · exact congrArg Prod.snd (List.inj_on_of_nodup_map hkeys hvalue hmem rfl)
  · rintro rfl
    exact hmem

theorem object?_of_not_mem (hmem : property ∉ properties.map Prod.fst) :
    e.graph.object? (e.nodeText i) property = none :=
  Graph.object?_eq_none fun value htold =>
    hmem (List.mem_map_of_mem ((h property value).mp htold))

end Has

/-- What stands for a term is read as that term. -/
theorem Stands.term_eq (h : e.Stands term object) (hread : e.Readable) :
    e.graph.term object = .ok term := by
  cases h with
  | iri value => rfl
  | literal value => rfl
  | @«variable» value label hlabel =>
      obtain ⟨i, rfl, hhas⟩ := hread.named _ _ hlabel
      have hkeys : ((variableProperties value.name).map Prod.fst).Nodup := by
        change [Vocabulary.rdfType, Vocabulary.varName].Nodup
        decide
      have hname : e.graph.object? (e.nodeText i) Vocabulary.varName = some (.ofString value.name) :=
        hhas.object?_of_mem hkeys (by simp [variableProperties])
      have hvalue : e.graph.literalValue? (e.nodeText i) Vocabulary.varName = some value.name := by
        rw [Graph.literalValue?, hname]
        rfl
      exact Graph.term_ofBlank hvalue (dif_pos value.valid)

/-! ## Windows -/

namespace IsWindow

/-- The properties of the node of a window, each of them once. -/
theorem keys (h : e.IsWindow i window) : ∃ properties : List (Iri × Object),
    List.Forall₂ e.Expresses (Encoder.windowProperties window) properties ∧
      e.Has i ((Vocabulary.rdfType, .ofIri window.kind.iri) :: properties) ∧
      properties.map Prod.fst = windowKeys window.kind window.step.isSome := by
  obtain ⟨-, properties, hproperties, hhas⟩ := h
  refine ⟨properties, hproperties, hhas, ?_⟩
  rw [← map_fst_windowProperties]
  exact (map_eq_map_of_forall₂ hproperties fun _ _ _ h => h.1.symm).symm

theorem object?_of_mem (h : e.IsWindow i window)
    (hmem : (property, term) ∈ Encoder.windowProperties window) :
    ∃ object, e.graph.object? (e.nodeText i) property = some object ∧ e.Stands term object := by
  obtain ⟨properties, hproperties, hhas, hkeys⟩ := h.keys
  obtain ⟨⟨_, object⟩, hobject, rfl, hstands⟩ := exists_of_mem_left hproperties hmem
  refine ⟨object, hhas.object?_of_mem ?_ (List.mem_cons_of_mem _ hobject), hstands⟩
  rw [List.map_cons, hkeys]
  exact nodup_windowKeys window.kind window.step.isSome

theorem requiredTerm_eq (h : e.IsWindow i window) (hread : e.Readable)
    (hmem : (property, term) ∈ Encoder.windowProperties window) :
    e.graph.requiredTerm (e.nodeText i) property = .ok term := by
  obtain ⟨object, hobject, hstands⟩ := h.object?_of_mem hmem
  rw [Graph.requiredTerm, Graph.required, hobject]
  exact hstands.term_eq hread

/-- The step of a window is found under the property of its kind, or not at all. -/
theorem optionalTerm_eq (h : e.IsWindow i window) (hread : e.Readable) :
    e.graph.optionalTerm (e.nodeText i) (stepKey window.kind) = .ok window.step := by
  unfold Graph.optionalTerm
  cases hstep : window.step with
  | none =>
      obtain ⟨properties, -, hhas, hkeys⟩ := h.keys
      have hmissing : ∀ kind, stepKey kind ∉ Vocabulary.rdfType :: windowKeys kind false := by
        intro kind
        cases kind <;> decide
      rw [hhas.object?_of_not_mem]
      rw [List.map_cons, hkeys, hstep]
      exact hmissing window.kind
  | some step =>
      have hmem : (stepKey window.kind, step) ∈ Encoder.windowProperties window := by
        obtain ⟨id, stream, frame, step'⟩ := window
        cases hstep
        cases frame <;> simp [Encoder.windowProperties, stepKey, Window.kind, Frame.kind]
      obtain ⟨object, hobject, hstands⟩ := h.object?_of_mem hmem
      rw [hobject]
      dsimp only
      rw [hstands.term_eq hread]
      rfl

theorem windowKind_eq (h : e.IsWindow i window) :
    e.graph.windowKind (e.nodeText i) = .ok window.kind := by
  obtain ⟨properties, -, hhas, hkeys⟩ := h.keys
  have hclass : (e.graph.listed (e.nodeText i) Vocabulary.rdfType).Perm [.ofIri window.kind.iri] := by
    refine Graph.listed_perm (List.nodup_singleton _) fun value =>
      (hhas Vocabulary.rdfType value).trans ?_
    -- no term is behind the property that holds the class
    have hnot : (Vocabulary.rdfType, value) ∉ properties := fun hmem => by
      have hkey := List.mem_map_of_mem (f := Prod.fst) hmem
      rw [hkeys] at hkey
      exact (List.nodup_cons.mp (nodup_windowKeys window.kind window.step.isSome)).1 hkey
    simp [hnot]
  have hfound : ∀ kind : WindowKind, [Object.ofIri kind.iri].findSome? Graph.windowKind? = some kind := by
    intro kind
    cases kind <;> decide
  unfold Graph.windowKind
  rw [List.perm_singleton.mp hclass]
  simp only [hfound]

/-- A window is read as it was written. -/
theorem window_eq (h : e.IsWindow i window) (hread : e.Readable) :
    e.graph.window (e.nodeText i) = .ok window := by
  have hkind := h.windowKind_eq
  have hstep := h.optionalTerm_eq hread
  have hterm : ∀ property term, (property, term) ∈ Encoder.windowProperties window →
      e.graph.requiredTerm (e.nodeText i) property = .ok term := fun _ _ => h.requiredTerm_eq hread
  obtain ⟨id, stream, frame, step⟩ := window
  have hid := hterm Vocabulary.windowUri id (by simp [Encoder.windowProperties])
  have hstream := hterm Vocabulary.streamUri stream (by simp [Encoder.windowProperties])
  refine bind_eq_ok_iff.mpr ⟨_, hkind, bind_eq_ok_iff.mpr ⟨_, hid, bind_eq_ok_iff.mpr ⟨_, hstream, ?_⟩⟩⟩
  cases frame with
  | logical range =>
      have hrange := hterm Vocabulary.logicalRange range (by simp [Encoder.windowProperties])
      exact bind_eq_ok_iff.mpr ⟨_, hrange, bind_eq_ok_iff.mpr ⟨_, hstep, rfl⟩⟩
  | past start stop =>
      have hstart := hterm Vocabulary.pastFrom start (by simp [Encoder.windowProperties])
      have hstop := hterm Vocabulary.pastTo stop (by simp [Encoder.windowProperties])
      exact bind_eq_ok_iff.mpr ⟨_, hstart, bind_eq_ok_iff.mpr ⟨_, hstop,
        bind_eq_ok_iff.mpr ⟨_, hstep, rfl⟩⟩⟩
  | physical items =>
      have hitems := hterm Vocabulary.physicalRange items (by simp [Encoder.windowProperties])
      exact bind_eq_ok_iff.mpr ⟨_, hitems, bind_eq_ok_iff.mpr ⟨_, hstep, rfl⟩⟩

end IsWindow

/-! ## Queries -/

/-- The windows behind a property are declared one after another. -/
theorem foldlM_windows {graph : Graph} (query : Query) {objects : List Object} {windows : List Window}
    (h : List.Forall₂ (fun object window => graph.window object.text = .ok window) objects windows)
    (hids : ((query.windows ++ windows).map Window.id).Nodup) : objects.foldlM (fun query object => do
      let window ← graph.window object.text
      (query.addWindow window).mapError CodecError.construction) query =
        .ok { query with windows := query.windows ++ windows } := by
  -- the windows declared so far do not have the name of the next one
  induction h generalizing query with
  | nil =>
      rw [List.append_nil]
      rfl
  | @cons object window objects windows hhead _ ih =>
      have hnew : window.id ∉ query.windows.map Window.id := by
        rw [List.map_append, List.nodup_append] at hids
        exact fun hmem => hids.2.2 _ hmem _ (by simp) rfl
      have hadd := Query.addWindow_of_not_mem hnew
      rw [List.append_cons] at hids ⊢
      rw [List.foldlM_cons]
      have hrest := ih { query with windows := query.windows ++ [window] } hids
      refine bind_eq_ok_iff.mpr ⟨_, bind_eq_ok_iff.mpr ⟨window, hhead, ?_⟩, hrest⟩
      exact mapError_eq_ok_iff.mpr hadd

namespace IsQuery

variable (h : e.IsQuery 0 query)

include h

theorem queryText_eq :
    e.graph.literalValue? (e.nodeText 0) Vocabulary.queryText = some query.bodyText := by
  have htext : e.graph.object? (e.nodeText 0) Vocabulary.queryText = some (.ofString query.bodyText) :=
    object?_eq h.text
  rw [Graph.literalValue?, htext]
  rfl

theorem outputOperator_eq : e.graph.outputOperator (e.nodeText 0) = .ok query.operator := by
  have hobject : e.graph.object? (e.nodeText 0) Vocabulary.hasOutputStreamOperator =
      query.operator.iri?.map .ofIri := by
    exact object?_eq h.operator
  have hread : ∀ operator : OutputOperator, ∀ iri ∈ operator.iri?,
      OutputOperator.ofIri? iri.text = some operator := by
    intro operator
    cases operator <;> decide
  unfold Graph.outputOperator
  rw [hobject]
  cases query.operator with
  | unspecified => rfl
  | istream => simp only [OutputOperator.iri?, Option.map, Object.ofIri, hread .istream _ rfl]
  | dstream => simp only [OutputOperator.iri?, Option.map, Object.ofIri, hread .dstream _ rfl]
  | rstream => simp only [OutputOperator.iri?, Option.map, Object.ofIri, hread .rstream _ rfl]

/-- The only query is the first node. -/
theorem queryNodes_eq (hsound : e.Sound) : e.graph.queryNodes = [e.nodeText 0] := by
  -- no other node has the class of a form, and the first node has one form only
  have hforms : ∀ form : QueryForm, e.graph.subjects Vocabulary.rdfType form.iri.bracketed =
      if form = query.form then [e.nodeText 0] else [] := by
    intro form
    have hclass : e.Says 0 Vocabulary.rdfType (.ofIri form.iri) ↔ form = query.form := by
      rw [h.form, List.mem_singleton]
      constructor
      · cases form <;> cases query.form <;> decide
      · rintro rfl
        rfl
    change e.graph.subjects Vocabulary.rdfType (Object.ofIri form.iri).text = _
    split
    · next hform =>
      exact Graph.subjects_eq_singleton fun subject =>
        ⟨hsound.forms subject form, fun hsubject => hsubject ▸ hclass.mpr hform⟩
    · next hform =>
      refine Graph.subjects_eq_nil fun subject hmem => ?_
      rw [hsound.forms subject form hmem] at hmem
      exact hform (hclass.mp hmem)
  unfold Graph.queryNodes
  simp only [hforms]
  cases query.form <;> exact List.mergeSort_singleton _

variable (hread : e.Readable)

include hread

theorem windows_eq (hids : (query.windows.map Window.id).Nodup) : ∃ windows : List Window,
    List.Forall₂ (fun object window => e.graph.window object.text = .ok window)
      (e.graph.objects (e.nodeText 0) Vocabulary.fromNamedWindow) windows ∧
    windows.Perm query.windows := by
  obtain ⟨nodes, hnodes, hobjects⟩ := h.windows
  have hsorted := Window.sorted_perm query.windows
  obtain ⟨windows, hwindows, hperm⟩ := exists_read hread
    (hnodes.imp fun _ _ h => h.2.window_eq hread) (hsorted.nodup_iff.mpr hids.of_map) hobjects
  exact ⟨windows, hwindows, hperm.trans hsorted⟩

/-- A query is read as it was written, if its text is read as its body and its windows have names of
their own. What else the text says is replaced. -/
theorem query_eq_of_text (hids : (query.windows.map Window.id).Nodup) {found : Query}
    (htext : Query.parse query.bodyText = .ok found) (hbody : found.IsBodyOf query) :
    ∃ windows : List Window, e.graph.query (e.nodeText 0) = .ok { query with windows := windows } ∧
      windows.Perm query.windows := by
  obtain ⟨windows, hwindows, hperm⟩ := h.windows_eq hread hids
  refine ⟨windows, ?_, hperm⟩
  have hfold := foldlM_windows found hwindows (by
    rw [hbody.windows]
    exact (hperm.map Window.id).nodup_iff.mpr hids)
  rw [hbody.windows, List.nil_append] at hfold
  unfold Graph.query
  rw [h.queryText_eq]
  refine bind_eq_ok_iff.mpr ⟨query.bodyText, rfl, ?_⟩
  refine bind_eq_ok_iff.mpr ⟨_, mapError_eq_ok_iff.mpr htext, ?_⟩
  refine bind_eq_ok_iff.mpr ⟨_, hfold, bind_eq_ok_iff.mpr ⟨_, h.outputOperator_eq, ?_⟩⟩
  obtain ⟨objects, hobjects, htold⟩ := h.output
  obtain ⟨prologue, body, declared, output, operator⟩ := query
  obtain ⟨prologue', body', declared', output', operator'⟩ := found
  obtain ⟨rfl, rfl, -, houtput⟩ := hbody
  cases output with
  | none =>
      cases hobjects
      have hobject : e.graph.object? (e.nodeText 0) Vocabulary.hasOutputStream = none := object?_eq htold
      obtain rfl : output' = none := houtput rfl
      rw [hobject]
      rfl
  | some stream =>
      obtain ⟨object, others, hstands, hothers, rfl⟩ := List.forall₂_cons_left_iff.mp hobjects
      cases hothers
      have hobject : e.graph.object? (e.nodeText 0) Vocabulary.hasOutputStream = some object :=
        object?_eq htold
      rw [hobject]
      exact bind_eq_ok_iff.mpr ⟨_, hstands.term_eq hread, rfl⟩

end IsQuery

/-- A query is read as it was written, if its text is and its windows have names of their own. -/
theorem IsQuery.query_eq (h : e.IsQuery 0 query) (hsound : e.Sound)
    (hids : (query.windows.map Window.id).Nodup)
    (hbody : Query.parse query.bodyText = .ok (.ofBody query.prologue query.body)) :
    ∃ windows : List Window, e.graph.query (e.nodeText 0) = .ok { query with windows := windows } ∧
      windows.Perm query.windows :=
  h.query_eq_of_text hsound.readable hids hbody (.ofBody query)

end Encoding

namespace Query

theorem sameAs_of_perm {query : Query} {windows : List Window} (h : windows.Perm query.windows) :
    sameAs { query with windows := windows } query := by
  simp [sameAs, Window.sorted_eq_of_perm h]

/-- The canonical graph of a query says all of the query but the order of its windows. -/
theorem onlyQuery_graphWith {query : Query} (h : query.Built)
    (hbody : parse query.bodyText = .ok (.ofBody query.prologue query.body))
    {supply : Nat → String} (hsupply : Function.Injective supply) :
    ∃ windows : List Window,
      (query.graphWith supply).onlyQuery = .ok { query with windows := windows } ∧
        windows.Perm query.windows ∧ sameAs { query with windows := windows } query := by
  obtain ⟨e, hsound, hquery, hgraph⟩ := Encoding.encoded_query hsupply query
  obtain ⟨windows, hread, hperm⟩ := hquery.query_eq hsound h.nodup hbody
  refine ⟨windows, ?_, hperm, sameAs_of_perm hperm⟩
  rw [← hgraph, Graph.onlyQuery, hquery.queryNodes_eq hsound]
  exact hread

/-- A window over the last three items of a stream that is left open. -/
def lastThree : Window where
  id := .variable ⟨"w", by decide⟩
  stream := .variable ⟨"s", by decide⟩
  frame := .physical (.ofCount 3)
  step := some (.variable ⟨"s", by decide⟩)

/-- The query over the last hour of a stream, with a second window and a stream that is left open. -/
def hourlyOpen : Query :=
  { hourly with windows := hourly.windows ++ [lastThree] }.setOutputStream
    (.variable ⟨"x", by decide⟩) .unspecified

theorem hourlyOpen_built : hourlyOpen.Built :=
  .setOutputStream (.addWindow (.read read_hourlyText) (addWindow_of_not_mem (by decide))) _ _

theorem onlyQuery_graphWith_hourlyOpen : hourlyOpen.Built ∧
    parse hourlyOpen.bodyText = .ok (.ofBody hourlyOpen.prologue hourlyOpen.body) ∧
    Function.Injective Encoding.numbered ∧
    ∃ windows : List Window,
      (hourlyOpen.graphWith Encoding.numbered).onlyQuery = .ok { hourlyOpen with windows := windows } ∧
        windows.Perm hourlyOpen.windows ∧ sameAs { hourlyOpen with windows := windows } hourlyOpen := by
  have hbody : parse hourlyOpen.bodyText = .ok (.ofBody hourlyOpen.prologue hourlyOpen.body) := by
    decide +kernel
  exact ⟨hourlyOpen_built, hbody, Encoding.numbered_injective,
    onlyQuery_graphWith hourlyOpen_built hbody Encoding.numbered_injective⟩

end Query

end StreamQuery
