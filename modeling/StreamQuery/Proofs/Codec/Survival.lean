import StreamQuery.Proofs.Query.Body

/-! # Queries that survive a graph

Whether a query comes back from its graph depends on the text of its body and on the names of its
windows, and not on the graph or the labels in it.
-/

namespace StreamQuery

namespace Query

/-- A query that comes back from its graph, with some labels for its blank nodes. -/
def Survives (query : Query) : Prop :=
  ∃ supply : Nat → String, Function.Injective supply ∧
    ∃ copy, (query.graphWith supply).onlyQuery = .ok copy ∧ copy.sameAs query

/-- A query whose text is read as its body, and whose windows have names of their own. -/
structure Readable (query : Query) : Prop where
  text : ∃ found, parse query.bodyText = .ok found ∧ found.IsBodyOf query
  names : (query.windows.map Window.id).Nodup

theorem sameAs_iff {a b : Query} : a.sameAs b ↔ a.prologue = b.prologue ∧ a.body = b.body ∧
    a.windows.Perm b.windows ∧ a.output = b.output ∧ a.operator = b.operator := by
  simp only [sameAs, Bool.and_eq_true, beq_iff_eq, Window.sorted_eq_sorted_iff, and_assoc]

/-- Queries that say the same have the same graph. -/
theorem graphWith_of_sameAs {a b : Query} (h : a.sameAs b) (supply : Nat → String) :
    a.graphWith supply = b.graphWith supply := by
  obtain ⟨hprologue, hbody, hwindows, houtput, hoperator⟩ := sameAs_iff.mp h
  have hsorted := Window.sorted_eq_of_perm hwindows
  have hheader : a.windowHeader = b.windowHeader := by
    funext name
    rw [windowHeader, windowHeader, hprologue]
  simp only [graphWith, Encoder.query, form, bodyText, hheader, hprologue, hbody, hsorted, houtput,
    hoperator]

theorem Survives.of_sameAs {a b : Query} (h : b.Survives) (hsame : a.sameAs b) : a.Survives := by
  obtain ⟨supply, hsupply, copy, hcopy, heq⟩ := h
  refine ⟨supply, hsupply, copy, (graphWith_of_sameAs hsame supply).symm ▸ hcopy, ?_⟩
  obtain ⟨hprologue, hbody, hwindows, houtput, hoperator⟩ := sameAs_iff.mp hsame
  obtain ⟨hprologue', hbody', hwindows', houtput', hoperator'⟩ := sameAs_iff.mp heq
  exact sameAs_iff.mpr ⟨hprologue'.trans hprologue.symm, hbody'.trans hbody.symm,
    hwindows'.trans hwindows.symm, houtput'.trans houtput.symm, hoperator'.trans hoperator.symm⟩

end Query

namespace Graph

variable {graph : Graph} {found declared : Query} {objects : List Object}

/-- Windows that could be declared one after another have names of their own. -/
theorem foldlM_windows_eq_ok (h : objects.foldlM (fun query object => do
      let window ← graph.window object.text
      (query.addWindow window).mapError CodecError.construction) found = .ok declared)
    (hids : (found.windows.map Window.id).Nodup) :
    ∃ windows, windows.length = objects.length ∧
      declared = { found with windows := found.windows ++ windows } ∧
      (declared.windows.map Window.id).Nodup := by
  induction objects generalizing found with
  | nil =>
      cases h
      exact ⟨[], rfl, by rw [List.append_nil], hids⟩
  | cons object objects ih =>
      rw [List.foldlM_cons] at h
      obtain ⟨between, hone, hrest⟩ := bind_eq_ok_iff.mp h
      obtain ⟨window, -, hadd⟩ := bind_eq_ok_iff.mp hone
      rw [mapError_eq_ok_iff] at hadd
      obtain rfl := Query.addWindow_eq_ok hadd
      obtain ⟨windows, hlength, hdeclared, hnodup⟩ := ih hrest (Query.nodup_addWindow hadd hids)
      exact ⟨window :: windows, congrArg Nat.succ hlength, by simpa using hdeclared, hnodup⟩

/-- What a query that was read from a graph is made of. -/
theorem query_eq_ok {node : String} {query : Query} (h : graph.query node = .ok query) :
    ∃ text found windows, graph.literalValue? node Vocabulary.queryText = some text ∧
      Query.parse text = .ok found ∧
      windows.length = (graph.objects node Vocabulary.fromNamedWindow).length ∧
      query.prologue = found.prologue ∧ query.body = found.body ∧
      query.windows = found.windows ++ windows ∧ (query.windows.map Window.id).Nodup ∧
      (query.output = none → found.output = none) := by
  unfold Graph.query at h
  obtain ⟨text, htext⟩ : ∃ text, graph.literalValue? node Vocabulary.queryText = some text := by
    cases htext : graph.literalValue? node Vocabulary.queryText with
    | none =>
        rw [htext] at h
        cases h
    | some text => exact ⟨text, rfl⟩
  rw [htext] at h
  obtain ⟨_, htaken, h⟩ := bind_eq_ok_iff.mp h
  cases htaken
  obtain ⟨found, hfound, h⟩ := bind_eq_ok_iff.mp h
  obtain ⟨declared, hdeclared, h⟩ := bind_eq_ok_iff.mp h
  obtain ⟨operator, -, h⟩ := bind_eq_ok_iff.mp h
  rw [mapError_eq_ok_iff] at hfound
  have hids := (Query.Built.read (Query.parse_eq_ok_iff.mp hfound).1).nodup
  obtain ⟨windows, hlength, rfl, hnodup⟩ := foldlM_windows_eq_ok hdeclared hids
  refine ⟨text, found, windows, htext, hfound, hlength, ?_⟩
  split at h
  · obtain ⟨stream, -, h⟩ := bind_eq_ok_iff.mp h
    cases h
    exact ⟨rfl, rfl, rfl, hnodup, nofun⟩
  · cases h
    exact ⟨rfl, rfl, rfl, hnodup, id⟩

end Graph

namespace Query

variable {query : Query}

/-- What survives a graph is read from its text. -/
theorem Survives.readable (h : query.Survives) : query.Readable := by
  obtain ⟨supply, hsupply, copy, hcopy, hsame⟩ := h
  obtain ⟨hprologue, hbody, hwindows, houtput, -⟩ := sameAs_iff.mp hsame
  obtain ⟨e, hsound, hquery, hgraph⟩ := Encoding.encoded_query hsupply query
  rw [← hgraph, Graph.onlyQuery, hquery.queryNodes_eq hsound] at hcopy
  obtain ⟨text, found, windows, htext, hfound, hlength, hprologue', hbody', hwindows', hnodup, houtput'⟩ :=
    Graph.query_eq_ok hcopy
  have hids : (query.windows.map Window.id).Nodup := (hwindows.map Window.id).nodup_iff.mp hnodup
  rw [hquery.queryText_eq] at htext
  cases htext
  refine ⟨⟨found, hfound, hprologue'.symm.trans hprologue, hbody'.symm.trans hbody, ?_, ?_⟩, hids⟩
  · -- all windows come from the graph, so the text has none
    obtain ⟨declared, hdeclared, hperm⟩ := hquery.windows_eq hsound.readable hids
    have hcount := hwindows.length_eq
    rw [hwindows', List.length_append, hlength, hdeclared.length_eq, hperm.length_eq] at hcount
    exact List.length_eq_zero_iff.mp (by omega)
  · exact fun hnone => houtput' (houtput.trans hnone)

end Query

end StreamQuery
