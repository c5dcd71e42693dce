import StreamQuery.Graph.Oracle
import StreamQuery.Proofs.Codec.Sharing
import StreamQuery.Proofs.Except

/-! # The variables that a graph tells of

The graph of a query answers which variables the query has. Its lists and its windows lead to the nodes
of variables, which are shared by name, and no other node has the properties of a query. So a question
about a name comes down to whether the node of that name is among those that are met.
-/

namespace StreamQuery

namespace Graph

variable {graph : Graph} {node : Node} {property : Iri} {object : Object}

theorem mem_allObjects : object ∈ graph.allObjects property ↔
    ∃ subject, ⟨subject, property, object⟩ ∈ graph.triples := by
  unfold allObjects
  rw [List.mem_filterMap]
  constructor
  · rintro ⟨⟨subject, predicate, value⟩, hmem, hfound⟩
    split at hfound
    · next heq =>
      cases heq
      cases hfound
      exact ⟨subject, hmem⟩
    · cases hfound
  · rintro ⟨subject, hmem⟩
    exact ⟨_, hmem, if_pos rfl⟩

theorem mem_allProperties : object ∈ graph.allProperties node.text ↔
    ∃ property, ⟨node, property, object⟩ ∈ graph.triples := by
  unfold allProperties
  rw [List.mem_filterMap]
  constructor
  · rintro ⟨⟨subject, predicate, value⟩, hmem, hfound⟩
    split at hfound
    · next heq =>
      obtain rfl := Node.text_injective heq
      cases hfound
      exact ⟨predicate, hmem⟩
    · cases hfound
  · rintro ⟨property, hmem⟩
    exact ⟨_, hmem, if_pos rfl⟩

end Graph

namespace Encoding

variable {e : Encoding} {query : Query} {name name' : String} {object : Object} {term : Term}
  {names : List String} {lists : List Nat} {property : Iri}

/-- The object is the node that is remembered for a variable. -/
def Denotes (e : Encoding) (name : String) (object : Object) : Prop :=
  ∃ label, e.labels.get? name = some label ∧ object = .ofBlank label

namespace Shares

variable (h : e.Shares)

include h

theorem eq_of_denotes (hobject : e.Denotes name object) (hobject' : e.Denotes name' object) :
    name = name' := by
  obtain ⟨label, hlabel, rfl⟩ := hobject
  obtain ⟨label', hlabel', heq⟩ := hobject'
  cases heq
  exact h.apart name name' label hlabel hlabel'

/-- What has the name of a variable is the node of that variable. -/
theorem contains_varName_iff :
    (e.graph.objects object.text Vocabulary.varName).contains (.ofString name) ↔
      e.Denotes name object := by
  rw [List.contains_iff_mem, (Graph.objects_perm_listed _ _ _).mem_iff, Graph.mem_listed_iff]
  constructor
  · rintro ⟨node, hnode, hnamed⟩
    obtain rfl : object = .node node := Object.text_injective hnode.symm
    obtain ⟨name', label, hlabel, rfl, heq⟩ := (h.named _ _).mp hnamed
    cases heq
    exact ⟨label, hlabel, rfl⟩
  · rintro ⟨label, hlabel, rfl⟩
    exact ⟨.blank label, rfl, (h.named _ _).mpr ⟨name, label, hlabel, rfl, rfl⟩⟩

theorem isVariableNamed_iff : e.graph.isVariableNamed name object ↔ e.Denotes name object := by
  rw [Graph.isVariableNamed, Bool.and_eq_true_iff, h.contains_varName_iff]
  refine and_iff_right_of_imp ?_
  rintro ⟨label, hlabel, rfl⟩
  have htyped := (h.typed (.blank label)).mpr ⟨name, label, hlabel, rfl⟩
  exact List.contains_iff_mem.mpr (Graph.mem_objects.mpr htyped)

theorem denotes_iff_of_stands (hstands : e.Stands term object) :
    e.Denotes name object ↔ term.variableName? = some name := by
  cases hstands with
  | iri value => exact iff_of_false (fun ⟨_, _, heq⟩ => by cases heq) nofun
  | literal value => exact iff_of_false (fun ⟨_, _, heq⟩ => by cases heq) nofun
  | «variable» hlabel =>
      constructor
      · exact fun hdenotes => congrArg some (h.eq_of_denotes ⟨_, hlabel, rfl⟩ hdenotes)
      · intro heq
        cases heq
        exact ⟨_, hlabel, rfl⟩

/-- A list of variables leads to their nodes. -/
theorem exists_mentions_iff {i : Nat} (hlist : e.IsList i names) :
    (∃ object ∈ e.graph.objects (Object.ofBlank (e.supply i)).text Vocabulary.mentions,
      e.Denotes name object) ↔ name ∈ names := by
  obtain ⟨-, properties, hproperties, hhas⟩ := hlist
  have hmem : ∀ object, object ∈ e.graph.objects (Object.ofBlank (e.supply i)).text Vocabulary.mentions ↔
      (Vocabulary.mentions, object) ∈ properties := fun object => Graph.mem_objects.trans (hhas _ _)
  constructor
  · rintro ⟨object, hobject, hdenotes⟩
    obtain ⟨name', hname', label, heq, hlabel⟩ :=
      exists_of_mem_right hproperties ((hmem object).mp hobject)
    obtain ⟨-, rfl⟩ := Prod.mk.inj heq
    rwa [h.eq_of_denotes hdenotes ⟨label, hlabel, rfl⟩]
  · intro hname
    obtain ⟨_, hproperty, label, rfl, hlabel⟩ := exists_of_mem_left hproperties hname
    exact ⟨.ofBlank label, (hmem _).mpr hproperty, label, hlabel, rfl⟩

/-- A window leads to the nodes of its variables. -/
theorem exists_properties_iff {i : Nat} {window : Window} (hwindow : e.IsWindow i window) :
    (∃ object ∈ e.graph.allProperties (Object.ofBlank (e.supply i)).text, e.Denotes name object) ↔
      ∃ term ∈ window.terms, term.variableName? = some name := by
  obtain ⟨-, properties, hproperties, hhas⟩ := hwindow
  rw [← Encoder.map_snd_windowProperties]
  constructor
  · rintro ⟨object, hobject, hdenotes⟩
    obtain ⟨property, htriple⟩ : ∃ property, e.Says i property object :=
      Graph.mem_allProperties.mp hobject
    rcases List.mem_cons.mp ((hhas property object).mp htriple) with heq | hproperty
    · -- the class of a window is no variable
      obtain ⟨label, -, rfl⟩ := hdenotes
      cases heq
    · obtain ⟨expected, hexpected, -, hstands⟩ := exists_of_mem_right hproperties hproperty
      exact ⟨expected.2, List.mem_map_of_mem hexpected, (h.denotes_iff_of_stands hstands).mp hdenotes⟩
  · rintro ⟨term, hterm, hname⟩
    obtain ⟨expected, hexpected, rfl⟩ := List.mem_map.mp hterm
    obtain ⟨⟨property, object⟩, hproperty, -, hstands⟩ := exists_of_mem_left hproperties hexpected
    have htriple := (hhas property object).mpr (.tail _ hproperty)
    exact ⟨object, Graph.mem_allProperties.mpr ⟨property, htriple⟩,
      (h.denotes_iff_of_stands hstands).mpr hname⟩

end Shares

/-- An encoding of a query at its first node, which alone has the properties of queries. -/
structure Answers (e : Encoding) (query : Query) : Prop where
  sound : e.Sound
  query : e.IsQuery 0 query
  shares : e.Shares
  root : ∀ triple ∈ e.graph.triples, triple.predicate ∈ Encoder.queryKeys →
    triple.subject = .blank (e.supply 0)

theorem answers_query {supply : Nat → String} (hsupply : Function.Injective supply) (query : Query) :
    ∃ e : Encoding, e.Answers query ∧ e.graph = query.graphWith supply := by
  obtain ⟨-, hsame, hsound, hquery⟩ := run_query hsupply query
  have hmeets := Encoder.meets_describeQuery (p := fun triple =>
    triple.predicate ∈ Encoder.queryKeys → triple.subject = .blank (supply 0))
    (fun _ hkey hmem => absurd hmem hkey) query (supply 0) fun _ _ _ => rfl
  refine ⟨_, ⟨hsound, hquery, ?_, ?_⟩, rfl⟩
  · exact hmeets.shares _ (Encoder.meets_fresh (p := fun _ => True) |>.shares _ (.empty hsupply))
  · rw [hsame]
    exact hmeets.writes _ nofun

namespace Answers

variable (h : e.Answers query)

include h

theorem mem_allObjects (hkey : property ∈ Encoder.queryKeys) :
    object ∈ e.graph.allObjects property ↔ e.Says 0 property object := by
  rw [Graph.mem_allObjects]
  constructor
  · rintro ⟨subject, htriple⟩
    obtain rfl := h.root _ htriple hkey
    exact htriple
  · exact fun htriple => ⟨_, htriple⟩

/-- The variables in the lists behind a property. -/
theorem exists_listed_iff (hkey : property ∈ Encoder.queryKeys) (hlists : e.AreLists 0 names lists)
    (htold : ∀ value, e.Says 0 property value ↔ value ∈ lists.map fun i => .ofBlank (e.supply i)) :
    (∃ object ∈ e.graph.listedVariables property, e.Denotes name object) ↔ name ∈ names := by
  unfold Graph.listedVariables
  constructor
  · rintro ⟨object, hobject, hdenotes⟩
    obtain ⟨list, hlist, hobject⟩ := List.mem_flatMap.mp hobject
    obtain ⟨i, hi, rfl⟩ := List.mem_map.mp ((htold list).mp ((h.mem_allObjects hkey).mp hlist))
    exact (h.shares.exists_mentions_iff (hlists.2 i hi).2).mp ⟨object, hobject, hdenotes⟩
  · intro hname
    obtain ⟨i, hi⟩ := List.exists_mem_of_ne_nil lists (hlists.1 (List.ne_nil_of_mem hname))
    obtain ⟨object, hobject, hdenotes⟩ := (h.shares.exists_mentions_iff (hlists.2 i hi).2).mpr hname
    refine ⟨object, List.mem_flatMap.mpr ⟨.ofBlank (e.supply i), ?_, hobject⟩, hdenotes⟩
    exact (h.mem_allObjects hkey).mpr ((htold _).mpr (List.mem_map_of_mem hi))

/-- The variables of the windows. -/
theorem exists_window_iff : (∃ object ∈ (e.graph.allObjects Vocabulary.fromNamedWindow).flatMap
      (fun window => e.graph.allProperties window.text), e.Denotes name object) ↔
    ∃ window ∈ query.windows, ∃ term ∈ window.terms, term.variableName? = some name := by
  obtain ⟨nodes, hnodes, htold⟩ := h.query.windows
  have hkey : Vocabulary.fromNamedWindow ∈ Encoder.queryKeys := by decide
  have hsorted : ∀ window, window ∈ Window.sorted query.windows ↔ window ∈ query.windows :=
    fun _ => (Window.sorted_perm query.windows).mem_iff
  constructor
  · rintro ⟨object, hobject, hdenotes⟩
    obtain ⟨node, hnode, hobject⟩ := List.mem_flatMap.mp hobject
    obtain ⟨i, hi, rfl⟩ := List.mem_map.mp ((htold node).mp ((h.mem_allObjects hkey).mp hnode))
    obtain ⟨window, hwindow, -, hdescribed⟩ := exists_of_mem_right hnodes hi
    exact ⟨window, (hsorted window).mp hwindow,
      (h.shares.exists_properties_iff hdescribed).mp ⟨object, hobject, hdenotes⟩⟩
  · rintro ⟨window, hwindow, hname⟩
    obtain ⟨i, hi, -, hdescribed⟩ := exists_of_mem_left hnodes ((hsorted window).mpr hwindow)
    obtain ⟨object, hobject, hdenotes⟩ := (h.shares.exists_properties_iff hdescribed).mpr hname
    refine ⟨object, List.mem_flatMap.mpr ⟨.ofBlank (e.supply i), ?_, hobject⟩, hdenotes⟩
    exact (h.mem_allObjects hkey).mpr ((htold _).mpr (List.mem_map_of_mem hi))

/-- The output stream, if it is a variable. -/
theorem exists_output_iff :
    (∃ object ∈ e.graph.allObjects Vocabulary.hasOutputStream, e.Denotes name object) ↔
      ∃ term ∈ query.output.toList, term.variableName? = some name := by
  obtain ⟨objects, hobjects, htold⟩ := h.query.output
  have hmem : ∀ object, object ∈ e.graph.allObjects Vocabulary.hasOutputStream ↔ object ∈ objects :=
    fun object => (h.mem_allObjects (by decide)).trans (htold object)
  constructor
  · rintro ⟨object, hobject, hdenotes⟩
    obtain ⟨term, hterm, hstands⟩ := exists_of_mem_right hobjects ((hmem object).mp hobject)
    exact ⟨term, hterm, (h.shares.denotes_iff_of_stands hstands).mp hdenotes⟩
  · rintro ⟨term, hterm, hname⟩
    obtain ⟨object, hobject, hstands⟩ := exists_of_mem_left hobjects hterm
    exact ⟨object, (hmem object).mpr hobject, (h.shares.denotes_iff_of_stands hstands).mpr hname⟩

end Answers

end Encoding

namespace Query

variable {name : String} {supply : Nat → String}

/-- The graph of a query has the variables of its pattern, of its windows and of its output stream. -/
theorem hasVariable_iff (query : Query) (hsupply : Function.Injective supply) :
    (query.graphWith supply).hasVariable name ↔
      name ∈ query.body.patternVariables ∨ name ∈ query.streamVariables := by
  obtain ⟨e, h, hgraph⟩ := Encoding.answers_query hsupply query
  obtain ⟨lists, hlists, htold⟩ := h.query.pattern
  rw [← hgraph, Graph.hasVariable, List.any_append, List.any_append, Bool.or_eq_true, Bool.or_eq_true,
    List.any_eq_true, List.any_eq_true, List.any_eq_true]
  simp only [h.shares.isVariableNamed_iff]
  rw [h.exists_listed_iff (by decide) hlists htold, h.exists_window_iff, h.exists_output_iff, or_assoc,
    streamVariables]
  simp only [List.filterMap_append, List.filterMap_flatMap, List.mem_append, List.mem_flatMap,
    List.mem_filterMap]

/-- The graph of a query has the variables that the query answers with in its list of results. -/
theorem isProjected_iff (query : Query) (hsupply : Function.Injective supply) :
    (query.graphWith supply).isProjected name ↔ name ∈ query.body.projectedVariables := by
  obtain ⟨e, h, hgraph⟩ := Encoding.answers_query hsupply query
  obtain ⟨lists, hlists, htold⟩ := h.query.results
  rw [← hgraph, Graph.isProjected, List.any_eq_true]
  simp only [h.shares.contains_varName_iff]
  exact h.exists_listed_iff (by decide) hlists htold

theorem checkName_eq_ok (h : ∀ c ∈ name.toList, c.isAlphanum ∨ c = '_') :
    Oracle.checkName name = .ok () := by
  refine if_neg fun hbroken => ?_
  obtain ⟨c, hc, hbreak⟩ := List.any_eq_true.mp hbroken
  have hplain := h c hc
  rcases Bool.or_eq_true_iff.mp hbreak with heq | heq
  · rw [beq_iff_eq.mp heq] at hplain
    exact absurd hplain (by decide)
  · rw [beq_iff_eq.mp heq] at hplain
    exact absurd hplain (by decide)

/-- A graph answers questions about variables as its query does: a variable occurs if it is one of the
pattern, of a window or the output stream, and is projected if the query answers with it. -/
theorem oracle_answers (query : Query) (hsupply : Function.Injective supply)
    (hname : ∀ c ∈ name.toList, c.isAlphanum ∨ c = '_') :
    Oracle.hasVariable (query.graphWith supply) name =
        .ok (decide (name ∈ query.body.patternVariables ∨ name ∈ query.streamVariables)) ∧
      Oracle.isProjected (query.graphWith supply) name =
        .ok (decide (name ∈ query.body.projectedVariables)) := by
  have hchecked := checkName_eq_ok hname
  constructor
  · refine bind_eq_ok_iff.mpr ⟨(), hchecked, congrArg Except.ok (Bool.eq_iff_iff.mpr ?_)⟩
    rw [query.hasVariable_iff hsupply, decide_eq_true_eq]
  · refine bind_eq_ok_iff.mpr ⟨(), hchecked, congrArg Except.ok (Bool.eq_iff_iff.mpr ?_)⟩
    rw [query.isProjected_iff hsupply, decide_eq_true_eq]

theorem oracle_answers_openRange : Function.Injective Encoding.numbered ∧
    (∀ c ∈ "r".toList, c.isAlphanum ∨ c = '_') ∧
    Oracle.hasVariable (openRange.graphWith Encoding.numbered) "r" = .ok true ∧
      Oracle.isProjected (openRange.graphWith Encoding.numbered) "r" = .ok false := by
  have hname : ∀ c ∈ "r".toList, c.isAlphanum ∨ c = '_' := by decide
  exact ⟨Encoding.numbered_injective, hname, oracle_answers openRange Encoding.numbered_injective hname⟩

end Query

end StreamQuery
