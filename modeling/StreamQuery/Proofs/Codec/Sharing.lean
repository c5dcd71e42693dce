import StreamQuery.Codec.Template
import StreamQuery.Proofs.Codec.Encoded
import StreamQuery.Proofs.Window

/-! # Variables shared by name

An encoder remembers the nodes of the variables that it has met. The invariant is that the graph says of
variables what the encoder remembers and nothing else: a node has the class of variables, or a name of a
variable, exactly if it is remembered for that name. Every step keeps the invariant, whatever was written
before, and remembers the variables that it meets. So the queries and templates that are written with
one encoder share their variables.
-/

namespace StreamQuery

/-- A graph with exactly one node for each of some variables, which is blank and has one name, and with
no nodes for other variables. -/
structure Graph.SharesVariables (graph : Graph) (names : List String) : Prop where
  node : ∀ name ∈ names, ∃ label, ∀ subject,
    ⟨subject, Vocabulary.rdfType, .ofIri Vocabulary.variableClass⟩ ∈ graph.triples ∧
      ⟨subject, Vocabulary.varName, .ofString name⟩ ∈ graph.triples ↔ subject = .blank label
  named : ∀ subject,
    ⟨subject, Vocabulary.rdfType, .ofIri Vocabulary.variableClass⟩ ∈ graph.triples →
      ∃ name ∈ names, ∀ object,
        ⟨subject, Vocabulary.varName, object⟩ ∈ graph.triples ↔ object = .ofString name

/-- What is known of the nodes of variables: the graph says of them what is remembered. -/
structure Encoding.Shares (e : Encoding) : Prop where
  distinct : Function.Injective e.supply
  taken : ∀ name label, e.labels.get? name = some label → ∃ i < e.next, label = e.supply i
  apart : ∀ name name' label, e.labels.get? name = some label →
    e.labels.get? name' = some label → name = name'
  typed : ∀ subject,
    ⟨subject, Vocabulary.rdfType, .ofIri Vocabulary.variableClass⟩ ∈ e.graph.triples ↔
      ∃ name label, e.labels.get? name = some label ∧ subject = .blank label
  named : ∀ subject object, ⟨subject, Vocabulary.varName, object⟩ ∈ e.graph.triples ↔
    ∃ name label, e.labels.get? name = some label ∧ subject = .blank label ∧ object = .ofString name

namespace Encoding.Shares

variable {e : Encoding}

theorem empty {supply : Nat → String} (h : Function.Injective supply) :
    (Encoding.empty supply).Shares where
  distinct := h
  taken := nofun
  apart := nofun
  typed _ := iff_of_false nofun nofun
  named _ _ := iff_of_false nofun nofun

/-- The invariant, as a property of the graph. -/
theorem sharesVariables (h : e.Shares) {names : List String}
    (hnames : ∀ name, name ∈ e.labels.keys ↔ name ∈ names) : e.graph.SharesVariables names where
  node name hname := by
    obtain ⟨label, hlabel⟩ := SortedMap.mem_keys_iff.mp ((hnames name).mpr hname)
    refine ⟨label, fun subject => ?_⟩
    rw [h.typed, h.named]
    constructor
    · rintro ⟨-, name', label', hlabel', rfl, heq⟩
      cases heq
      rw [Option.some_inj.mp (hlabel'.symm.trans hlabel)]
    · rintro rfl
      exact ⟨⟨name, label, hlabel, rfl⟩, name, label, hlabel, rfl, rfl⟩
  named subject hsubject := by
    obtain ⟨name, label, hlabel, rfl⟩ := (h.typed subject).mp hsubject
    refine ⟨name, (hnames name).mp (SortedMap.mem_keys_iff.mpr ⟨label, hlabel⟩), fun object => ?_⟩
    rw [h.named]
    constructor
    · rintro ⟨name', label', hlabel', heq, rfl⟩
      cases heq
      rw [h.apart name' name label hlabel' hlabel]
    · rintro rfl
      exact ⟨name, label, hlabel, rfl, rfl⟩

/-- The next node of the supply is not remembered yet. -/
theorem not_taken (h : e.Shares) (name : String) : e.labels.get? name ≠ some (e.supply e.next) := by
  intro hlabel
  obtain ⟨i, hi, heq⟩ := h.taken name _ hlabel
  exact Nat.ne_of_gt hi (h.distinct heq)


theorem get?_remember {name name' label label' : String} (hnone : e.labels.get? name = none) :
    (e.labels.insert name label).get? name' = some label' ↔
      name' = name ∧ label' = label ∨ e.labels.get? name' = some label' := by
  rw [SortedMap.get?_insert_eq_some_iff]
  refine or_congr_right (and_iff_left_of_imp ?_)
  rintro hlabel rfl
  cases hnone.symm.trans hlabel

theorem exists_remember {name label : String} (hnone : e.labels.get? name = none)
    (q : String → String → Prop) :
    (∃ name' label', (e.labels.insert name label).get? name' = some label' ∧ q name' label') ↔
      q name label ∨ ∃ name' label', e.labels.get? name' = some label' ∧ q name' label' := by
  simp only [get?_remember hnone, or_and_right, exists_or, and_assoc, exists_and_left,
    exists_eq_left]

/-- The encoding in which the next node is remembered as that of a variable, with its properties. -/
theorem remember (h : e.Shares) {name : String} (hnone : e.labels.get? name = none) :
    ({ e with
      graph := (e.graph.add ⟨.blank (e.supply e.next), Vocabulary.rdfType,
        .ofIri Vocabulary.variableClass⟩).add
          ⟨.blank (e.supply e.next), Vocabulary.varName, .ofString name⟩
      labels := e.labels.insert name (e.supply e.next)
      next := e.next + 1 } : Encoding).Shares where
  distinct := h.distinct
  taken name' label hlabel := by
    rcases (get?_remember hnone).mp hlabel with ⟨-, rfl⟩ | hlabel
    · exact ⟨e.next, Nat.lt_succ_self _, rfl⟩
    · exact (h.taken name' label hlabel).imp fun _ => And.imp_left Nat.lt_succ_of_lt
  apart name' name'' label hlabel hlabel' := by
    rcases (get?_remember hnone).mp hlabel with ⟨rfl, rfl⟩ | hlabel
    · rcases (get?_remember hnone).mp hlabel' with ⟨rfl, -⟩ | hlabel'
      · rfl
      · exact absurd hlabel' (h.not_taken name'')
    · rcases (get?_remember hnone).mp hlabel' with ⟨-, rfl⟩ | hlabel'
      · exact absurd hlabel (h.not_taken name')
      · exact h.apart name' name'' label hlabel hlabel'
  typed subject := by
    have hne : Vocabulary.rdfType ≠ Vocabulary.varName := by decide
    rw [exists_remember hnone fun _ label => subject = .blank label, ← h.typed subject]
    simp only [Graph.mem_add, Triple.mk.injEq, hne, false_and, and_false, and_true, false_or]
  named subject object := by
    have hne : Vocabulary.varName ≠ Vocabulary.rdfType := by decide
    rw [exists_remember hnone fun name label => subject = .blank label ∧ object = .ofString name,
      ← h.named subject object]
    simp only [Graph.mem_add, Triple.mk.injEq, hne, false_and, and_false, true_and, false_or]

end Encoding.Shares

namespace Encoder

/-- The properties that only queries have. -/
def queryKeys : List Iri :=
  [Vocabulary.wherePattern, Vocabulary.resultVariables, Vocabulary.fromNamedWindow,
    Vocabulary.hasOutputStream]

/-- A step that meets some variables, which it remembers, and that writes triples of one sort. -/
structure Meets {α : Type} (p : Triple → Prop) (names : List String) (x : Encoder α) : Prop where
  shares : ∀ e : Encoding, e.Shares → (x.run e).2.Shares
  knows : ∀ (e : Encoding) name, name ∈ (x.run e).2.labels.keys ↔ name ∈ e.labels.keys ∨ name ∈ names
  writes : ∀ e : Encoding, (∀ triple ∈ e.graph.triples, p triple) →
    ∀ triple ∈ (x.run e).2.graph.triples, p triple

variable {α β : Type} {p : Triple → Prop} {names names' : List String} {x : Encoder α}
  {label : String} {subject : Node} {property : Iri} {object : Object}

namespace Meets

theorem pure (a : α) : Meets p [] (Pure.pure a : Encoder α) where
  shares _ h := h
  knows _ _ := (or_iff_left List.not_mem_nil).symm
  writes _ h := h

theorem bind {f : α → Encoder β} (hx : Meets p names x) (hf : ∀ a, Meets p names' (f a)) :
    Meets p (names ++ names') (x >>= f) where
  shares e h := (hf (x.run e).1).shares _ (hx.shares e h)
  knows e name := by
    rw [List.mem_append, ← or_assoc, ← hx.knows e name]
    exact (hf (x.run e).1).knows _ name
  writes e h := (hf (x.run e).1).writes _ (hx.writes e h)

theorem congr (h : Meets p names x) (hnames : ∀ name, name ∈ names ↔ name ∈ names') :
    Meets p names' x where
  shares := h.shares
  knows e name := by rw [← hnames, h.knows]
  writes := h.writes

/-- A step behind one that meets no variables. -/
theorem silent {f : α → Encoder β} (hx : Meets p [] x) (hf : ∀ a, Meets p names (f a)) :
    Meets p names (x >>= f) := hx.bind hf

/-- A step before one that meets no variables. -/
theorem before {f : α → Encoder β} (hx : Meets p names x) (hf : ∀ a, Meets p [] (f a)) :
    Meets p names (x >>= f) := (hx.bind hf).congr fun _ => by rw [List.append_nil]

theorem forM {f : α → Encoder PUnit} (names : α → List String) {as : List α}
    (h : ∀ a ∈ as, Meets p (names a) (f a)) : Meets p (as.flatMap names) (as.forM f) := by
  induction as with
  | nil => exact .pure _
  | cons a as ih =>
      obtain ⟨ha, has⟩ := List.forall_mem_cons.mp h
      exact ha.bind fun _ => ih has

end Meets

theorem meets_fresh : Meets p [] fresh where
  shares _ h := ⟨h.distinct, fun name label hlabel =>
    (h.taken name label hlabel).imp fun _ => And.imp_left Nat.lt_succ_of_lt, h.apart, h.typed, h.named⟩
  knows _ _ := (or_iff_left List.not_mem_nil).symm
  writes _ h := h

/-- A triple that says nothing of variables. -/
theorem meets_add (hname : property ≠ Vocabulary.varName)
    (hclass : property = Vocabulary.rdfType → object ≠ .ofIri Vocabulary.variableClass)
    (hp : p ⟨subject, property, object⟩) : Meets p [] (add subject property object) where
  shares e h := by
    refine ⟨h.distinct, h.taken, h.apart, fun other => ?_, fun other value => ?_⟩
    · refine Iff.trans (Graph.mem_add.trans (or_iff_right fun heq => ?_)) (h.typed other)
      cases heq
      exact hclass rfl rfl
    · refine Iff.trans (Graph.mem_add.trans (or_iff_right fun heq => ?_)) (h.named other value)
      cases heq
      exact hname rfl
  knows _ _ := (or_iff_left List.not_mem_nil).symm
  writes e h triple htriple := by
    rcases Graph.mem_add.mp htriple with rfl | htriple
    · exact hp
    · exact h triple htriple

theorem meets_variableNode (hp : ∀ triple : Triple, triple.predicate ∉ queryKeys → p triple)
    (name : String) : Meets p [name] (variableNode name) where
  shares e h := by
    cases hlabel : e.labels.get? name with
    | some label => rwa [Encoding.run_variableNode_of_some hlabel]
    | none =>
        rw [Encoding.run_variableNode_of_none hlabel]
        exact h.remember hlabel
  knows e name' := by
    rw [List.mem_singleton]
    cases hlabel : e.labels.get? name with
    | some label =>
        rw [Encoding.run_variableNode_of_some hlabel]
        refine (or_iff_left_of_imp ?_).symm
        rintro rfl
        exact SortedMap.mem_keys_iff.mpr ⟨label, hlabel⟩
    | none =>
        rw [Encoding.run_variableNode_of_none hlabel]
        exact SortedMap.mem_keys_insert.trans or_comm
  writes e h triple htriple := by
    cases hlabel : e.labels.get? name with
    | some label =>
        rw [Encoding.run_variableNode_of_some hlabel] at htriple
        exact h triple htriple
    | none =>
        rw [Encoding.run_variableNode_of_none hlabel] at htriple
        rcases Graph.mem_add.mp htriple with rfl | htriple
        · exact hp _ (show Vocabulary.varName ∉ queryKeys by decide)
        rcases Graph.mem_add.mp htriple with rfl | htriple
        · exact hp _ (show Vocabulary.rdfType ∉ queryKeys by decide)
        · exact h triple htriple

/-! ## The steps of the encoder -/

theorem not_mem_of_windowProperties {declared : Window} {expected : Iri × Term}
    (h : expected ∈ windowProperties declared) :
    expected.1 ∉ Vocabulary.varName :: Vocabulary.rdfType :: queryKeys := by
  have hkeys : ∀ kind hasStep, ∀ key ∈ Encoding.windowKeys kind hasStep,
      key ∉ Vocabulary.varName :: Vocabulary.rdfType :: queryKeys := by
    intro kind hasStep
    cases kind <;> cases hasStep <;> decide
  refine hkeys declared.kind declared.step.isSome _ ?_
  rw [← Encoding.map_fst_windowProperties]
  exact List.mem_map_of_mem h

theorem map_snd_windowProperties (window : Window) :
    (windowProperties window).map Prod.snd = window.terms := by
  obtain ⟨id, stream, frame, step⟩ := window
  cases frame <;> cases step <;> rfl

section

variable (hp : ∀ triple : Triple, triple.predicate ∉ queryKeys → p triple)

include hp

theorem meets_ordinary (hproperty : property ∉ Vocabulary.varName :: Vocabulary.rdfType :: queryKeys)
    (object : Object) : Meets p [] (add subject property object) := by
  obtain ⟨hname, hproperty⟩ := not_or.mp (mt List.mem_cons.mpr hproperty)
  obtain ⟨hclass, hkey⟩ := not_or.mp (mt List.mem_cons.mpr hproperty)
  exact meets_add hname (fun heq => absurd heq hclass) (hp _ hkey)

theorem meets_class {type : Iri} (h : type ≠ Vocabulary.variableClass) :
    Meets p [] (add subject Vocabulary.rdfType (.ofIri type)) :=
  meets_add (by decide) (fun _ heq => h (Node.iri.inj (Object.node.inj heq)))
    (hp _ (show Vocabulary.rdfType ∉ queryKeys by decide))

theorem meets_optional (hproperty : property ∉ Vocabulary.varName :: Vocabulary.rdfType :: queryKeys)
    (object : Option Object) : Meets p [] (optional subject property object) := by
  cases object with
  | none => exact .pure _
  | some object => exact meets_ordinary hp hproperty object

theorem meets_termObject (term : Term) : Meets p term.variableName?.toList (termObject term) := by
  cases term with
  | iri value => exact .pure _
  | literal value => exact .pure _
  | «variable» value => exact (meets_variableNode hp value.name).before fun _ => .pure _

theorem meets_optionalTerm (term : Option Term)
    (hadd : ∀ object, Meets p [] (describe label property object)) :
    Meets p (term.toList.filterMap Term.variableName?) (optionalTerm label property term) := by
  cases term with
  | none => exact .pure _
  | some term =>
      refine ((meets_termObject hp term).before hadd).congr fun name => ?_
      simp

theorem meets_variableList (listed : List String)
    (hadd : ∀ list, Meets p [] (describe label property (.ofBlank list))) :
    Meets p listed (variableList label property listed) := by
  unfold variableList
  split
  · next hempty =>
    rw [List.isEmpty_iff.mp hempty]
    exact .pure _
  · refine meets_fresh.silent fun list => Meets.before ?_ fun _ => hadd list
    refine (Meets.forM (fun name => [name]) fun name _ => ?_).congr fun name => by simp
    exact (meets_variableNode hp name).before fun _ => meets_ordinary hp (by decide) _

theorem meets_window (declared : Window) :
    Meets p (declared.terms.filterMap Term.variableName?) (window declared) := by
  have hkind : declared.kind.iri ≠ Vocabulary.variableClass := by
    cases declared.kind <;> decide
  refine meets_fresh.silent fun label => (meets_class hp hkind).silent fun _ =>
    Meets.before ?_ fun _ => .pure _
  rw [← map_snd_windowProperties, List.filterMap_map]
  refine (Meets.forM (fun expected => expected.2.variableName?.toList) fun expected hexpected => ?_).congr
    fun name => by simp
  exact (meets_termObject hp expected.2).before fun _ =>
    meets_ordinary hp (not_mem_of_windowProperties hexpected) _

theorem meets_argument (declared : Argument) :
    Meets p (declared.default.toList.filterMap Term.variableName?) (argument declared) := by
  refine meets_fresh.silent fun label => (meets_class hp (by decide)).silent fun _ =>
    (meets_optional hp (by decide) _).silent fun _ => (meets_optional hp (by decide) _).silent fun _ => ?_
  refine (meets_optionalTerm hp declared.default fun _ => meets_ordinary hp (by decide) _).before
    fun _ => ?_
  exact (meets_ordinary hp (by decide) _).silent fun _ => (meets_optional hp (by decide) _).silent
    fun _ => (meets_optional hp (by decide) _).silent fun _ => .pure _

/-- A query meets its variables. Only its own node has the properties of queries. -/
theorem meets_describeQuery (declared : Query) (root : String)
    (hroot : ∀ property object, p ⟨.blank root, property, object⟩) :
    Meets p (declared.body.patternVariables ++ declared.body.projectedVariables ++
      declared.streamVariables) (Encoding.describeQuery declared root) := by
  have hform : declared.form.iri ≠ Vocabulary.variableClass := by
    cases declared.form <;> decide
  have hdescribe : ∀ property object, property ≠ Vocabulary.varName → property ≠ Vocabulary.rdfType →
      Meets p [] (describe root property object) := fun property object hname hclass =>
    meets_add hname (fun heq => absurd heq hclass) (hroot property object)
  have hwindows : Meets p ((Window.sorted declared.windows).flatMap fun window =>
      window.terms.filterMap Term.variableName?)
      ((Window.sorted declared.windows).forM (Encoding.declare root)) :=
    .forM _ fun window _ => (meets_window hp window).before fun _ =>
      hdescribe _ _ (by decide) (by decide)
  have hpattern := meets_variableList hp declared.body.patternVariables
    fun list => hdescribe Vocabulary.wherePattern (.ofBlank list) (by decide) (by decide)
  have hresults := meets_variableList hp declared.body.projectedVariables
    fun list => hdescribe Vocabulary.resultVariables (.ofBlank list) (by decide) (by decide)
  have houtput := meets_optionalTerm hp declared.output
    fun object => hdescribe Vocabulary.hasOutputStream object (by decide) (by decide)
  refine Meets.congr ((meets_class hp hform).silent fun _ =>
    (hdescribe _ _ (by decide) (by decide)).silent fun _ => hpattern.bind fun _ =>
    hresults.bind fun _ => hwindows.bind fun _ => houtput.before fun _ =>
    meets_optional hp (by decide) _) fun name => ?_
  simp only [Query.streamVariables, List.filterMap_append, List.filterMap_flatMap, List.mem_append,
    List.mem_flatMap, (Window.sorted_perm declared.windows).mem_iff, or_assoc]

end

/-! ## Queries and templates with one encoder -/

/-- What an encoder is given to write. -/
inductive Item where
  | query (declared : Query)
  | template (declared : Template)

namespace Item

/-- Writes a query or a template. -/
def write : Item → Encoder Unit
  | query declared => do let _ ← Encoder.query declared
  | template declared => Encoder.template declared

/-- The query that is written, or that of the template. -/
def body : Item → Query
  | query declared => declared
  | template declared => declared.body

/-- The defaults of the arguments that are written. -/
def defaults : Item → List Term
  | query _ => []
  | template declared => declared.arguments.flatMap fun argument => argument.default.toList

/-- The variables that are met: those of the pattern, of the results, of the windows and the output
stream, and the defaults that are variables. -/
def variableNames (item : Item) : List String :=
  item.body.body.patternVariables ++ item.body.body.projectedVariables ++
    item.body.streamVariables ++ item.defaults.filterMap Term.variableName?

end Item

/-- Writes queries and templates one after another, with one encoder. -/
def items (list : List Item) : Encoder Unit := list.forM Item.write

theorem meets_query (declared : Query) :
    Meets (fun _ => True) (declared.body.patternVariables ++ declared.body.projectedVariables ++
      declared.streamVariables) (query declared) :=
  meets_fresh.silent fun label =>
    (meets_describeQuery (fun _ _ => trivial) declared label fun _ _ => trivial).before fun _ => .pure _

theorem meets_template (declared : Template) :
    Meets (fun _ => True) (Item.template declared).variableNames (template declared) := by
  have hp : ∀ triple : Triple, triple.predicate ∉ queryKeys → True := fun _ _ => trivial
  have htype : templateType declared.body.form ≠ Vocabulary.variableClass := by
    cases declared.body.form <;> decide
  have harguments : Meets (fun _ => True)
      ((Item.template declared).defaults.filterMap Term.variableName?)
      (declared.arguments.forM fun argument => do
        add (.iri declared.handle) Vocabulary.templateConstraint
          (.ofBlank (← Encoder.argument argument))) := by
    rw [Item.defaults, List.filterMap_flatMap]
    exact .forM _ fun argument _ => (meets_argument hp argument).before fun _ =>
      meets_ordinary hp (by decide) _
  exact (meets_class hp (by decide)).silent fun _ => (meets_class hp htype).silent fun _ =>
    (meets_query declared.body).bind fun _ => (meets_ordinary hp (by decide) _).silent fun _ =>
    (meets_optional hp (by decide) _).silent fun _ => (meets_optional hp (by decide) _).silent fun _ =>
    harguments

theorem meets_item (item : Item) : Meets (fun _ => True) item.variableNames item.write := by
  cases item with
  | query declared => exact (meets_query declared).bind fun _ => .pure _
  | template declared => exact meets_template declared

/-- Variables are shared by name: whatever queries and templates are written with one encoder, the graph
has one node for each variable that they have, and no nodes for other variables. -/
theorem sharesVariables_items (list : List Item) {supply : Nat → String}
    (hsupply : Function.Injective supply) :
    ((items list).graphWith supply).SharesVariables (list.flatMap Item.variableNames) := by
  have hmeets : Meets (fun _ => True) (list.flatMap Item.variableNames) (items list) :=
    .forM Item.variableNames fun item _ => meets_item item
  refine (hmeets.shares _ (.empty hsupply)).sharesVariables fun name => ?_
  rw [hmeets.knows]
  exact or_iff_right List.not_mem_nil

end Encoder

/-- A query over a window whose range is left open. -/
def Query.openRange : Query where
  prologue := .empty
  body := ⟨.select none [.variable "s"], [], some (.run [.variable "s", .variable "p"] .nil), []⟩
  windows := [⟨.iri ⟨"http://a/ranged", by decide⟩, .variable ⟨"p", by decide⟩,
    .logical (.variable ⟨"r", by decide⟩), none⟩]
  output := some (.variable ⟨"out", by decide⟩)
  operator := .istream

/-- The template for a range, which is that of another variable if it is not given. -/
def Template.openRange : Template where
  handle := ⟨"http://a/t", by decide⟩
  body := Query.openRange
  arguments := [⟨"r", none, true, some (.variable ⟨"d", by decide⟩), none, none⟩]
  label := none
  comment := none

theorem Encoder.sharesVariables_openRange : Function.Injective Encoding.numbered ∧
    ((items [.query Query.openRange, .template Template.openRange]).graphWith
      Encoding.numbered).SharesVariables
        (["p", "s", "s", "p", "r", "out"] ++ ["p", "s", "s", "p", "r", "out", "d"]) :=
  ⟨Encoding.numbered_injective, sharesVariables_items
    [.query Query.openRange, .template Template.openRange] Encoding.numbered_injective⟩

end StreamQuery
