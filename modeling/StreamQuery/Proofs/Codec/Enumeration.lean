import StreamQuery.Codec.Template
import StreamQuery.Proofs.Except
import StreamQuery.Proofs.Graph

/-! # The order of triples

A graph holds its triples in some order. Look-ups that answer in the order of texts do not see it. The
kind of a window is taken from the first class that the graph holds, so it is free of the order only
where the classes of the window name one kind.
-/

namespace StreamQuery

namespace Graph

variable {graph graph' : Graph}

/-- Graphs that hold the same triples, in whatever order. -/
def SameTriples (graph graph' : Graph) : Prop :=
  ∀ triple, triple ∈ graph.triples ↔ triple ∈ graph'.triples

theorem SameTriples.perm (h : graph.SameTriples graph') : graph.triples.Perm graph'.triples :=
  (List.perm_ext_iff_of_nodup graph.distinct graph'.distinct).mpr h

/-! ## Look-ups in the order of texts -/

theorem pairwise_objects (graph : Graph) (subject : String) (property : Iri) :
    (graph.objects subject property).Pairwise fun a b => a.text ≤ b.text := by
  refine (List.pairwise_mergeSort ?_ ?_ (graph.listed subject property)).imp fun h => by simpa using h
  · intro a b c hab hbc
    simp only [decide_eq_true_eq] at hab hbc ⊢
    exact String.le_trans hab hbc
  · intro a b
    simpa using String.le_total a.text b.text

namespace SameTriples

variable (h : graph.SameTriples graph')

include h

theorem listed_perm (subject : String) (property : Iri) :
    (graph.listed subject property).Perm (graph'.listed subject property) :=
  h.perm.filterMap _

/-- Objects are told apart by their texts, so they are in one order of their texts. -/
theorem objects_eq : graph.objects = graph'.objects := by
  funext subject property
  refine List.Perm.eq_of_pairwise ?_ (graph.pairwise_objects subject property)
    (graph'.pairwise_objects subject property) ?_
  · intro a b _ _ hab hba
    exact Object.text_injective (String.le_antisymm hab hba)
  · exact (graph.objects_perm_listed subject property).trans
      ((h.listed_perm subject property).trans (graph'.objects_perm_listed subject property).symm)

theorem object?_eq : graph.object? = graph'.object? := by
  funext subject property
  rw [object?, object?, h.objects_eq]

theorem subjects_eq : graph.subjects = graph'.subjects := by
  funext property object
  exact sortedNames_eq_of_mem_iff fun name => (h.perm.filterMap _).mem_iff

theorem literalValue?_eq : graph.literalValue? = graph'.literalValue? := by
  funext node property
  rw [literalValue?, literalValue?, h.object?_eq]

theorem required_eq : graph.required = graph'.required := by
  funext node property
  rw [required, required, h.object?_eq]

theorem term_eq : graph.term = graph'.term := by
  funext object
  unfold term
  rw [h.literalValue?_eq]

theorem requiredTerm_eq : graph.requiredTerm = graph'.requiredTerm := by
  funext node property
  rw [requiredTerm, requiredTerm, h.required_eq, h.term_eq]

theorem optionalTerm_eq : graph.optionalTerm = graph'.optionalTerm := by
  funext node property
  rw [optionalTerm, optionalTerm, h.object?_eq, h.term_eq]

theorem outputOperator_eq : graph.outputOperator = graph'.outputOperator := by
  funext node
  rw [outputOperator, outputOperator, h.object?_eq]

theorem argument_eq : graph.argument = graph'.argument := by
  funext node
  rw [argument, argument, h.required_eq, h.object?_eq, h.optionalTerm_eq, h.literalValue?_eq]

theorem queryNodes_eq : graph.queryNodes = graph'.queryNodes := by
  rw [queryNodes, queryNodes, h.subjects_eq]

theorem templateHandle_eq : graph.templateHandle = graph'.templateHandle := by
  funext key
  rw [templateHandle, templateHandle, hasType, hasType, h.objects_eq]

theorem templateHandles_eq : graph.templateHandles = graph'.templateHandles := by
  rw [templateHandles, templateHandles, h.subjects_eq]

end SameTriples

/-! ## The kinds of windows -/

/-- The classes of a node are the same for its kind in any order: those that name a kind of window name
one kind, and where none does, there is one class at most. -/
structure KindSettled (graph : Graph) (node : String) : Prop where
  one : ∀ a ∈ graph.listed node Vocabulary.rdfType, ∀ b ∈ graph.listed node Vocabulary.rdfType,
    ∀ kind kind', windowKind? a = some kind → windowKind? b = some kind' → kind = kind'
  unnamed : (∀ a ∈ graph.listed node Vocabulary.rdfType, windowKind? a = none) →
    (graph.listed node Vocabulary.rdfType).length ≤ 1

/-- A graph whose windows have settled kinds. -/
def WindowsSettled (graph : Graph) : Prop :=
  ∀ triple ∈ graph.triples, triple.predicate = Vocabulary.fromNamedWindow →
    graph.KindSettled triple.object.text

theorem windowKind_of_mem {node : String} {object : Object} {kind : WindowKind}
    (hmem : object ∈ graph.listed node Vocabulary.rdfType) (hkind : windowKind? object = some kind)
    (hone : ∀ a ∈ graph.listed node Vocabulary.rdfType, ∀ kind', windowKind? a = some kind' →
      kind' = kind) : graph.windowKind node = .ok kind := by
  have hfound : (graph.listed node Vocabulary.rdfType).findSome? windowKind? = some kind := by
    cases hfind : (graph.listed node Vocabulary.rdfType).findSome? windowKind? with
    | none => simp [List.findSome?_eq_none_iff.mp hfind object hmem] at hkind
    | some kind' =>
        obtain ⟨a, ha, hnames⟩ := List.exists_of_findSome?_eq_some hfind
        rw [hone a ha kind' hnames]
  unfold windowKind
  simp only [hfound]

theorem windowKind_eq_of_settled (h : graph.SameTriples graph') {node : String}
    (hsettled : graph.KindSettled node) : graph.windowKind node = graph'.windowKind node := by
  have hperm := h.listed_perm node Vocabulary.rdfType
  by_cases hnamed : ∀ a ∈ graph.listed node Vocabulary.rdfType, windowKind? a = none
  · -- a list of one class at most is in one order
    have hsame : graph.listed node Vocabulary.rdfType = graph'.listed node Vocabulary.rdfType := by
      have hlength := hsettled.unnamed hnamed
      cases hlist : graph.listed node Vocabulary.rdfType with
      | nil => exact (List.nil_perm.mp (hlist ▸ hperm)).symm
      | cons a rest =>
          rw [hlist, List.length_cons] at hlength
          obtain rfl := List.length_eq_zero_iff.mp (by omega : rest.length = 0)
          exact List.singleton_perm.mp (hlist ▸ hperm)
    rw [windowKind, windowKind, hsame]
  · push Not at hnamed
    obtain ⟨object, hmem, hne⟩ := hnamed
    obtain ⟨kind, hkind⟩ := Option.ne_none_iff_exists'.mp hne
    have hone : ∀ a ∈ graph.listed node Vocabulary.rdfType, ∀ kind', windowKind? a = some kind' →
        kind' = kind := fun a ha kind' hk => hsettled.one a ha object hmem kind' kind hk hkind
    rw [windowKind_of_mem hmem hkind hone,
      windowKind_of_mem (hperm.mem_iff.mp hmem) hkind fun a ha => hone a (hperm.mem_iff.mpr ha)]

/-- Each kind that a class of a node names is the kind of the node for some order of the triples. -/
theorem exists_windowKind {node : String} {object : Object} {kind : WindowKind}
    (hmem : object ∈ graph.listed node Vocabulary.rdfType) (hkind : windowKind? object = some kind) :
    ∃ graph' : Graph, graph.SameTriples graph' ∧ graph'.windowKind node = .ok kind := by
  obtain ⟨subject, rfl, htriple⟩ := mem_listed_iff.mp hmem
  have hperm := List.perm_cons_erase htriple
  -- the triple that names the kind comes first
  let graph' : Graph := ⟨_, hperm.nodup_iff.mp graph.distinct⟩
  refine ⟨graph', fun triple => hperm.mem_iff, ?_⟩
  have hlisted : ∃ rest, graph'.listed subject.text Vocabulary.rdfType = object :: rest :=
    ⟨_, List.filterMap_cons_some (if_pos ⟨rfl, rfl⟩)⟩
  obtain ⟨rest, hrest⟩ := hlisted
  unfold windowKind
  simp only [hrest, List.findSome?_cons, hkind]

/-! ## Queries and templates -/

theorem window_eq_of_settled (h : graph.SameTriples graph') {node : String}
    (hsettled : graph.KindSettled node) : graph.window node = graph'.window node := by
  rw [window, window, windowKind_eq_of_settled h hsettled, h.requiredTerm_eq, h.optionalTerm_eq]

theorem foldlM_windows_congr {objects : List Object}
    (h : ∀ object ∈ objects, graph.window object.text = graph'.window object.text) (query : Query) :
    (objects.foldlM (fun query object => do
        let window ← graph.window object.text
        (query.addWindow window).mapError CodecError.construction) query) =
      objects.foldlM (fun query object => do
        let window ← graph'.window object.text
        (query.addWindow window).mapError CodecError.construction) query := by
  induction objects generalizing query with
  | nil => rfl
  | cons object objects ih =>
      rw [List.foldlM_cons, List.foldlM_cons, h object List.mem_cons_self]
      exact bind_congr fun next => ih (fun other hother => h other (List.mem_cons_of_mem _ hother)) next

theorem query_eq_of_settled (h : graph.SameTriples graph') (hsettled : graph.WindowsSettled) :
    graph.query = graph'.query := by
  funext node
  have hwindows : ∀ object ∈ graph'.objects node Vocabulary.fromNamedWindow,
      graph.window object.text = graph'.window object.text := by
    intro object hobject
    rw [← h.objects_eq, (objects_perm_listed _ _ _).mem_iff] at hobject
    obtain ⟨subject, -, htriple⟩ := mem_listed_iff.mp hobject
    exact window_eq_of_settled h (hsettled _ htriple rfl)
  unfold query
  simp only [h.objects_eq, h.literalValue?_eq, h.outputOperator_eq, h.object?_eq, h.term_eq,
    foldlM_windows_congr hwindows]

theorem template_eq_of_settled (h : graph.SameTriples graph') (hsettled : graph.WindowsSettled) :
    graph.template = graph'.template := by
  funext handle
  unfold template
  simp only [h.templateHandle_eq, h.required_eq, query_eq_of_settled h hsettled, h.objects_eq,
    h.argument_eq, h.literalValue?_eq]

/-- Queries and templates of graphs with the same triples are the same, whether or not they can be read,
if the kinds of windows are settled. If they are not, each kind that a class of a window names is its kind
for some order of the triples. -/
theorem decode_eq_of_settled (h : graph.SameTriples graph') (hsettled : graph.WindowsSettled) :
    graph.onlyQuery = graph'.onlyQuery ∧ (∀ node, graph.query node = graph'.query node) ∧
      (∀ handle, graph.template handle = graph'.template handle) ∧
      graph.templates = graph'.templates ∧
      ∀ (unsettled : Graph) (node : String) (kind : WindowKind),
        (∃ object ∈ unsettled.listed node Vocabulary.rdfType, windowKind? object = some kind) →
        ∃ reordered : Graph, unsettled.SameTriples reordered ∧
          reordered.windowKind node = .ok kind := by
  have hquery := query_eq_of_settled h hsettled
  have htemplate := template_eq_of_settled h hsettled
  refine ⟨?_, fun node => congrFun hquery node, fun handle => congrFun htemplate handle, ?_, ?_⟩
  · rw [onlyQuery, onlyQuery, h.queryNodes_eq, hquery]
  · rw [templates, templates, h.templateHandles_eq, htemplate]
  · rintro unsettled node kind ⟨object, hmem, hkind⟩
    exact exists_windowKind hmem hkind

/-! ### A window of two classes -/

theorem objects_of_listed {subject : String} {property : Iri} {object : Object}
    (h : graph.listed subject property = [object]) : graph.objects subject property = [object] := by
  rw [objects, h, List.mergeSort_singleton]

theorem object?_of_listed {subject : String} {property : Iri} {object : Object}
    (h : graph.listed subject property = [object]) : graph.object? subject property = some object := by
  rw [object?, objects_of_listed h]
  rfl

/-- The name of the window below, and of the stream that it looks at. -/
def twofoldName : Iri := ⟨"http://a/twofold", by decide⟩

/-- The triples of a query with a window that has the classes of some kinds, with a range in time and a
number of items. -/
def twofoldTriples (kinds : List WindowKind) : List Triple :=
  [⟨.blank "q", Vocabulary.rdfType, .ofIri Vocabulary.selectQuery⟩,
    ⟨.blank "q", Vocabulary.queryText, .ofString "SELECT ?s WHERE \x7b ?s ?p ?o \x7d"⟩,
    ⟨.blank "q", Vocabulary.fromNamedWindow, .ofBlank "w"⟩,
    ⟨.blank "w", Vocabulary.windowUri, .ofIri twofoldName⟩,
    ⟨.blank "w", Vocabulary.streamUri, .ofIri twofoldName⟩,
    ⟨.blank "w", Vocabulary.logicalRange, .ofString "PT1H"⟩,
    ⟨.blank "w", Vocabulary.physicalRange, .ofString "10"⟩] ++
    kinds.map fun kind => ⟨.blank "w", Vocabulary.rdfType, .ofIri kind.iri⟩

/-- A window over a stretch of time, and over the last items after that. -/
def logicalFirst : Graph := ⟨twofoldTriples [.logical, .physical], by decide +kernel⟩

/-- The same window with its classes the other way round. -/
def physicalFirst : Graph := ⟨twofoldTriples [.physical, .logical], by decide +kernel⟩

/-- The window with one class. -/
def settledWindow : Graph := ⟨twofoldTriples [.logical], by decide +kernel⟩

/-- Its triples from the last one to the first one. -/
def settledReversed : Graph :=
  ⟨settledWindow.triples.reverse, List.nodup_reverse.mpr settledWindow.distinct⟩

theorem decode_eq_of_settled_reversed : settledWindow.SameTriples settledReversed ∧
    settledWindow.WindowsSettled ∧ settledWindow.triples ≠ settledReversed.triples ∧
    settledWindow.onlyQuery = settledReversed.onlyQuery := by
  have hsame : settledWindow.SameTriples settledReversed := fun _ => List.mem_reverse.symm
  have hclasses : settledWindow.listed "_:w" Vocabulary.rdfType = [.ofIri WindowKind.logical.iri] := by
    decide +kernel
  have hkind : settledWindow.KindSettled "_:w" := by
    refine ⟨fun a ha b hb kind kind' hkind hkind' => ?_, fun _ => ?_⟩
    · rw [hclasses, List.mem_singleton] at ha hb
      subst ha hb
      exact Option.some.inj (hkind.symm.trans hkind')
    · rw [hclasses]
      exact Nat.le_refl 1
  have hobject : ∀ triple ∈ settledWindow.triples, triple.predicate = Vocabulary.fromNamedWindow →
      triple.object.text = "_:w" := by decide +kernel
  have hsettled : settledWindow.WindowsSettled :=
    fun triple htriple hpredicate => hobject triple htriple hpredicate ▸ hkind
  exact ⟨hsame, hsettled, by decide +kernel, (decode_eq_of_settled hsame hsettled).1⟩

theorem logicalFirst_sameTriples : logicalFirst.SameTriples physicalFirst := by
  intro triple
  simp [logicalFirst, physicalFirst, twofoldTriples, or_comm]

theorem object?_twofold {property : Iri} {object : Object} (h : logicalFirst.SameTriples graph)
    (hlisted : logicalFirst.listed "_:w" property = [object]) :
    graph.object? "_:w" property = some object := by
  rw [← h.object?_eq, object?_of_listed hlisted]

theorem required_twofold {property : Iri} {object : Object} (h : logicalFirst.SameTriples graph)
    (hlisted : logicalFirst.listed "_:w" property = [object]) :
    graph.required "_:w" property = .ok object := by
  rw [required, object?_twofold h hlisted]

theorem optionalTerm_twofold {property : Iri} (h : logicalFirst.SameTriples graph)
    (hlisted : logicalFirst.listed "_:w" property = []) :
    graph.optionalTerm "_:w" property = .ok none := by
  rw [optionalTerm, ← h.object?_eq, object?, objects, hlisted, List.mergeSort_nil]
  rfl

/-- What is known of the window without its kind. -/
theorem window_twofold {kind : WindowKind} (h : logicalFirst.SameTriples graph)
    (hkind : graph.windowKind "_:w" = .ok kind) (hpast : kind ≠ .past) :
    graph.window "_:w" = .ok ⟨.iri twofoldName, .iri twofoldName,
      if kind = .logical then .logical (.literal (.plain "PT1H"))
      else .physical (.literal (.plain "10")), none⟩ := by
  have hterm : ∀ property object value, logicalFirst.listed "_:w" property = [object] →
      graph.term object = .ok value → graph.requiredTerm "_:w" property = .ok value :=
    fun property object value hlisted hvalue =>
      bind_eq_ok_iff.mpr ⟨object, required_twofold h hlisted, hvalue⟩
  have hid := hterm Vocabulary.windowUri (.ofIri twofoldName) (.iri twofoldName)
    (by decide +kernel) rfl
  have hstream := hterm Vocabulary.streamUri (.ofIri twofoldName) (.iri twofoldName)
    (by decide +kernel) rfl
  refine bind_eq_ok_iff.mpr ⟨_, hkind, bind_eq_ok_iff.mpr ⟨_, hid, bind_eq_ok_iff.mpr ⟨_, hstream, ?_⟩⟩⟩
  cases kind with
  | logical =>
      have hrange := hterm Vocabulary.logicalRange (.ofString "PT1H") (.literal (.plain "PT1H"))
        (by decide +kernel) rfl
      have hstep := optionalTerm_twofold h
        (by decide +kernel : logicalFirst.listed "_:w" Vocabulary.logicalStep = [])
      exact bind_eq_ok_iff.mpr ⟨_, hrange, bind_eq_ok_iff.mpr ⟨_, hstep, rfl⟩⟩
  | past => exact absurd rfl hpast
  | physical =>
      have hitems := hterm Vocabulary.physicalRange (.ofString "10") (.literal (.plain "10"))
        (by decide +kernel) rfl
      have hstep := optionalTerm_twofold h
        (by decide +kernel : logicalFirst.listed "_:w" Vocabulary.physicalStep = [])
      exact bind_eq_ok_iff.mpr ⟨_, hitems, bind_eq_ok_iff.mpr ⟨_, hstep, rfl⟩⟩

/-- The body of the query. -/
def twofoldBody : QueryBody where
  form := .select none [.variable "s"]
  dataset := []
  pattern := some (.run [.variable "s", .variable "p", .variable "o"] .nil)
  modifiers := []

theorem queryNodes_twofold : logicalFirst.queryNodes = ["_:q"] := by
  have hnodes : (QueryForm.all.flatMap fun form =>
      logicalFirst.subjects Vocabulary.rdfType form.iri.bracketed) = ["_:q"] := by decide +kernel
  rw [queryNodes, hnodes, List.mergeSort_singleton]

theorem onlyQuery_twofold {window : Window} (h : logicalFirst.SameTriples graph)
    (hwindow : graph.window "_:w" = .ok window) :
    graph.onlyQuery = .ok { Query.ofBody .empty twofoldBody with windows := [window] } := by
  have hobject : ∀ property object, logicalFirst.listed "_:q" property = [object] →
      graph.object? "_:q" property = some object := fun property object hlisted => by
    rw [← h.object?_eq, object?_of_listed hlisted]
  have hnone : ∀ property, logicalFirst.listed "_:q" property = [] →
      graph.object? "_:q" property = none := fun property hlisted => by
    rw [← h.object?_eq, object?, objects, hlisted, List.mergeSort_nil]
    rfl
  have htext := hobject Vocabulary.queryText
    (.ofString "SELECT ?s WHERE \x7b ?s ?p ?o \x7d") (by decide +kernel)
  have hwindows : graph.objects "_:q" Vocabulary.fromNamedWindow = [.ofBlank "w"] := by
    have hlisted : logicalFirst.listed "_:q" Vocabulary.fromNamedWindow = [.ofBlank "w"] := by
      decide +kernel
    rw [← h.objects_eq, objects_of_listed hlisted]
  have hoperator := hnone Vocabulary.hasOutputStreamOperator (by decide +kernel)
  have houtput := hnone Vocabulary.hasOutputStream (by decide +kernel)
  have hparse : Query.parse "SELECT ?s WHERE \x7b ?s ?p ?o \x7d" =
      .ok (.ofBody .empty twofoldBody) := by decide +kernel
  have hliteral : graph.literalValue? "_:q" Vocabulary.queryText =
      some "SELECT ?s WHERE \x7b ?s ?p ?o \x7d" := by
    rw [literalValue?, htext]
    rfl
  have hadd : (graph.objects "_:q" Vocabulary.fromNamedWindow).foldlM (fun query object => do
      let window ← graph.window object.text
      (query.addWindow window).mapError CodecError.construction) (Query.ofBody .empty twofoldBody) =
        .ok { Query.ofBody .empty twofoldBody with windows := [window] } := by
    rw [hwindows]
    exact bind_eq_ok_iff.mpr ⟨_, bind_eq_ok_iff.mpr ⟨window, hwindow, rfl⟩, rfl⟩
  rw [onlyQuery, ← h.queryNodes_eq, queryNodes_twofold]
  dsimp only
  unfold query
  rw [hliteral]
  refine bind_eq_ok_iff.mpr ⟨_, rfl, bind_eq_ok_iff.mpr ⟨_, mapError_eq_ok_iff.mpr hparse,
    bind_eq_ok_iff.mpr ⟨_, hadd, bind_eq_ok_iff.mpr ⟨.unspecified, ?_, ?_⟩⟩⟩⟩
  · rw [outputOperator, hoperator]
  · rw [houtput]
    rfl

/-- Two graphs hold the same triples, and their queries differ. -/
theorem decode_sees_order : ∃ graph graph' : Graph, graph.SameTriples graph' ∧
    ∃ query query', graph.onlyQuery = .ok query ∧ graph'.onlyQuery = .ok query' ∧
      query.sameAs query' = false := by
  have hlogical : logicalFirst.windowKind "_:w" = .ok .logical := by decide +kernel
  have hphysical : physicalFirst.windowKind "_:w" = .ok .physical := by decide +kernel
  have hrefl : logicalFirst.SameTriples logicalFirst := fun _ => Iff.rfl
  refine ⟨logicalFirst, physicalFirst, logicalFirst_sameTriples, _, _,
    onlyQuery_twofold hrefl (window_twofold hrefl hlogical (by decide)),
    onlyQuery_twofold logicalFirst_sameTriples
      (window_twofold logicalFirst_sameTriples hphysical (by decide)), ?_⟩
  simp [Query.sameAs, Window.sorted, List.mergeSort_singleton]

end Graph

end StreamQuery
