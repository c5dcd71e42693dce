import StreamQuery.Proofs.Codec.Encoding
import StreamQuery.Proofs.Related

/-! # What encoders write

A step takes new nodes for what it writes and leaves the nodes before it as they are (`Adds`), or it
describes one node further (`Describes`). What is known of the properties that it writes is kept when
the encoding grows, so that it holds of the finished graph.
-/

namespace StreamQuery

namespace Encoding

/-! ## Terms and windows in an encoding -/

/-- The object that stands for a term: of a variable, the node that is remembered for its name. -/
inductive Stands (e : Encoding) : Term → Object → Prop where
  | iri (value : Iri) : Stands e (.iri value) (.ofIri value)
  | literal (value : Literal) : Stands e (.literal value) (.literal value)
  | variable {value : Variable} {label : String} (h : e.labels.get? value.name = some label) :
      Stands e (.variable value) (.ofBlank label)

/-- A property whose object stands for a term. -/
def Expresses (e : Encoding) (expected : Iri × Term) (property : Iri × Object) : Prop :=
  property.1 = expected.1 ∧ e.Stands expected.2 property.2

/-- A node with the class of a window and with its properties, and with nothing else. -/
def IsWindow (e : Encoding) (i : Nat) (window : Window) : Prop :=
  i < e.next ∧ ∃ properties, List.Forall₂ e.Expresses (Encoder.windowProperties window) properties ∧
    e.Has i ((Vocabulary.rdfType, .ofIri window.kind.iri) :: properties)

variable {e e' e'' start : Encoding} {i n : Nat} {term : Term} {object : Object} {window : Window}

theorem Stands.grows (h : e.Stands term object) (hsound : e.Sound) (hgrows : Grows n e e') :
    e'.Stands term object := by
  cases h with
  | iri value => exact .iri value
  | literal value => exact .literal value
  | «variable» hlabel => exact .variable (hsound.label_grows hgrows hlabel)

theorem Expresses.grows {expected : Iri × Term} {property : Iri × Object}
    (h : e.Expresses expected property) (hsound : e.Sound) (hgrows : Grows n e e') :
    e'.Expresses expected property :=
  ⟨h.1, h.2.grows hsound hgrows⟩

theorem IsWindow.grows (h : e.IsWindow i window) (hsound : e.Sound) (hgrows : Grows n e e')
    (hne : i ≠ n) : e'.IsWindow i window := by
  obtain ⟨hi, properties, hproperties, hhas⟩ := h
  exact ⟨Nat.lt_of_lt_of_le hi hgrows.next, properties,
    hproperties.imp fun _ _ h => h.grows hsound hgrows, hhas.grows hgrows hi hne⟩

/-! ## Steps that add nodes -/

section

variable {α : Type}

/-- A step that describes none of the nodes that were there, and what is known of its answer. -/
def Adds (x : Encoder α) (post : Encoding → α → Encoding → Prop) : Prop :=
  ∀ e, e.Sound → (x.run e).2.Sound ∧ (∀ n, Grows n e (x.run e).2) ∧ post e (x.run e).1 (x.run e).2

/-- A step that describes a node further, and what is known of the properties that it adds. -/
def Describes (start : Encoding) (n : Nat) (x : Encoder Unit)
    (post : List (Iri × Object) → Encoding → Prop) : Prop :=
  ∀ properties e, Building start n properties e → ∃ added,
    Building start n (properties ++ added) (x.run e).2 ∧ Grows n e (x.run e).2 ∧
      post added (x.run e).2

/-- What holds of an encoding and still holds when a node is described further. -/
def Kept (n : Nat) (property : Encoding → Prop) : Prop :=
  ∀ e e', e.Sound → Grows n e e' → property e → property e'

namespace Describes

variable {x y : Encoder Unit} {p q : List (Iri × Object) → Encoding → Prop}

theorem mono (h : Describes start n x p) (hpq : ∀ added e, p added e → q added e) :
    Describes start n x q := by
  intro properties e hbuilding
  obtain ⟨added, hnext, hgrows, hadded⟩ := h properties e hbuilding
  exact ⟨added, hnext, hgrows, hpq _ _ hadded⟩

theorem pure : Describes start n (Pure.pure ()) fun added _ => added = [] := by
  intro properties e hbuilding
  refine ⟨[], ?_, .refl n e, rfl⟩
  rwa [List.append_nil]

/-- What the first step has written is not changed by the second one. -/
theorem seq (hx : Describes start n x p) (hy : Describes start n y q)
    (hkept : ∀ added, Kept n (p added)) :
    Describes start n (x >>= fun _ => y) fun added e =>
      ∃ first second, added = first ++ second ∧ p first e ∧ q second e := by
  intro properties e hbuilding
  obtain ⟨first, hbetween, hgrows, hfirst⟩ := hx properties e hbuilding
  obtain ⟨second, hnext, hgrows', hsecond⟩ := hy _ _ hbetween
  refine ⟨first ++ second, ?_, hgrows.trans hgrows', first, second, rfl, ?_, hsecond⟩
  · rw [← List.append_assoc]
    exact hnext
  · exact hkept first _ _ hbetween.sound hgrows' hfirst

/-- What is known of the first step apart from the encoding holds behind any other step. -/
theorem before {p : List (Iri × Object) → Prop} (hx : Describes start n x fun added _ => p added)
    (hy : Describes start n y q) :
    Describes start n (x >>= fun _ => y) fun added e =>
      ∃ first second, added = first ++ second ∧ p first ∧ q second e :=
  hx.seq hy fun _ _ _ _ _ hadded => hadded

theorem one {property : Iri} {object : Object}
    (hform : ∀ form : QueryForm, property = Vocabulary.rdfType → object = .ofIri form.iri → n = 0) :
    Describes start n (Encoder.describe (start.supply n) property object) fun added _ =>
      added = [(property, object)] := by
  intro properties e hbuilding
  have hrun : ((Encoder.describe (start.supply n) property object).run e).2 =
      e.describe n property object := by
    rw [← hbuilding.supply_eq]
    rfl
  rw [hrun]
  exact ⟨_, hbuilding.describe hform, hbuilding.grows_describe property object, rfl⟩

/-- A property whose object is written first. -/
theorem answer {x : Encoder α} {post : Encoding → α → Encoding → Prop} {final : α → Encoding → Prop}
    (hx : Adds x post) (objectOf : α → Object) {property : Iri}
    (hproperty : property ≠ Vocabulary.rdfType)
    (hfinal : ∀ e a e' e'', n < e.next → e'.Sound → Grows n e' e'' → post e a e' → final a e'') :
    Describes start n (do Encoder.describe (start.supply n) property (objectOf (← x)))
      fun added e => ∃ a, added = [(property, objectOf a)] ∧ final a e := by
  intro properties e hbuilding
  obtain ⟨hsound, hgrows, hpost⟩ := hx e hbuilding.sound
  -- the object is written elsewhere, so the description so far is as it was
  have hstep := hbuilding.step hsound hgrows
  have hone : Describes start n
      (Encoder.describe (start.supply n) property (objectOf (x.run e).1)) _ :=
    .one fun _ h => absurd h hproperty
  obtain ⟨_, hnext, hgrows', rfl⟩ := hone properties _ hstep
  exact ⟨_, hnext, (hgrows n).trans hgrows', _, rfl,
    hfinal _ _ _ _ hbuilding.bound hsound hgrows' hpost⟩

/-- One property for each element of a list. -/
theorem forM {f : α → Encoder Unit} {post : α → Iri × Object → Encoding → Prop} {as : List α}
    (hf : ∀ a ∈ as, Describes start n (f a) fun added e =>
      ∃ property, added = [property] ∧ post a property e)
    (hkept : ∀ a property, Kept n (post a property)) :
    Describes start n (as.forM f) fun added e =>
      List.Forall₂ (fun a property => post a property e) as added := by
  induction as with
  | nil =>
      refine pure.mono fun added e hadded => ?_
      rw [hadded]
      exact .nil
  | cons a as ih =>
      obtain ⟨ha, has⟩ := List.forall_mem_cons.mp hf
      -- what is known of the first property must outlast the writing of the others
      refine (ha.seq (ih has) ?_).mono ?_
      · rintro added e e' hsound hgrows ⟨property, rfl, hpost⟩
        exact ⟨property, rfl, hkept a property e e' hsound hgrows hpost⟩
      · rintro added e ⟨_, others, rfl, ⟨property, rfl, hpost⟩, hothers⟩
        exact .cons hpost hothers

end Describes

/-- A new node that is described to its end. -/
theorem Adds.of_describes (body : String → Encoder Unit) {post : List (Iri × Object) → Encoding → Prop}
    (h : ∀ start : Encoding, ∀ n, Describes start n (body (start.supply n)) post) :
    Adds (do let label ← Encoder.fresh; body label; return label) fun before label e =>
      ∃ i, before.next ≤ i ∧ i < e.next ∧ label = e.supply i ∧
        ∃ properties, e.Has i properties ∧ post properties e := by
  intro e hsound
  obtain ⟨added, hbuilding, -, hpost⟩ := h e e.next [] _ hsound.building
  refine ⟨hbuilding.sound, hbuilding.grows.of_new hbuilding.new, e.next, hbuilding.new, hbuilding.bound,
    ?_, added, hbuilding.has, hpost⟩
  exact congrFun hbuilding.supply_eq.symm e.next

end

/-! ## The steps of the encoder -/

theorem form_ne_variableClass (form : QueryForm) :
    Object.ofIri Vocabulary.variableClass ≠ .ofIri form.iri := by
  cases form <;> decide

theorem form_ne_kind (form : QueryForm) (kind : WindowKind) :
    Object.ofIri kind.iri ≠ .ofIri form.iri := by
  cases form <;> cases kind <;> decide

theorem adds_variableNode (name : String) :
    Adds (Encoder.variableNode name) fun _ label e => e.labels.get? name = some label := by
  intro e hsound
  cases hlabel : e.labels.get? name with
  | some label =>
      rw [run_variableNode_of_some hlabel]
      exact ⟨hsound, fun n => .refl n e, hlabel⟩
  | none =>
      rw [run_variableNode_of_none hlabel]
      have hnode : Building e e.next (variableProperties name)
          (({ e with next := e.next + 1 }.describe e.next Vocabulary.rdfType
            (.ofIri Vocabulary.variableClass)).describe e.next Vocabulary.varName (.ofString name)) :=
        (hsound.building.describe fun form _ h => absurd h (form_ne_variableClass form)).describe
          fun _ h _ => absurd h (by decide)
      obtain ⟨hgrows, hsound⟩ := hnode.remember hlabel
      refine ⟨hsound, hgrows, ?_⟩
      exact (SortedMap.get?_insert _ _ _ _).trans (if_pos rfl)

theorem adds_termObject (term : Term) :
    Adds (Encoder.termObject term) fun _ object e => e.Stands term object := by
  intro e hsound
  cases term with
  | iri value => exact ⟨hsound, fun n => .refl n e, .iri value⟩
  | literal value => exact ⟨hsound, fun n => .refl n e, .literal value⟩
  | «variable» value =>
      obtain ⟨hnext, hgrows, hlabel⟩ := adds_variableNode value.name e hsound
      exact ⟨hnext, hgrows, .variable hlabel⟩

theorem describes_term {property : Iri} (hproperty : property ≠ Vocabulary.rdfType) (term : Term) :
    Describes start n (do Encoder.describe (start.supply n) property (← Encoder.termObject term))
      fun added e => ∃ object, added = [(property, object)] ∧ e.Stands term object :=
  .answer (adds_termObject term) id hproperty fun _ _ _ _ _ hsound hgrows h => h.grows hsound hgrows

/-- The properties that the frames of a kind have. -/
def frameKeys : WindowKind → List Iri
  | .logical => [Vocabulary.logicalRange]
  | .past => [Vocabulary.pastFrom, Vocabulary.pastTo]
  | .physical => [Vocabulary.physicalRange]

/-- The property that says how windows of a kind slide. -/
def stepKey : WindowKind → Iri
  | .logical => Vocabulary.logicalStep
  | .past => Vocabulary.logicalStep
  | .physical => Vocabulary.physicalStep

/-- The properties that windows of a kind have. -/
def windowKeys (kind : WindowKind) (hasStep : Bool) : List Iri :=
  Vocabulary.windowUri :: Vocabulary.streamUri ::
    (frameKeys kind ++ if hasStep then [stepKey kind] else [])

theorem nodup_windowKeys (kind : WindowKind) (hasStep : Bool) :
    (Vocabulary.rdfType :: windowKeys kind hasStep).Nodup := by
  cases kind <;> cases hasStep <;> decide

theorem map_fst_windowProperties (window : Window) :
    (Encoder.windowProperties window).map Prod.fst = windowKeys window.kind window.step.isSome := by
  unfold Encoder.windowProperties Window.kind
  cases window.frame <;> cases window.step <;> rfl

theorem ne_rdfType_of_mem {expected : Iri × Term} (h : expected ∈ Encoder.windowProperties window) :
    expected.1 ≠ Vocabulary.rdfType := by
  intro hkey
  have hmem := List.mem_map_of_mem (f := Prod.fst) h
  rw [map_fst_windowProperties, hkey] at hmem
  exact (List.nodup_cons.mp (nodup_windowKeys window.kind window.step.isSome)).1 hmem

/-- The description of a window behind its label. -/
def describeWindow (window : Window) (label : String) : Encoder Unit := do
  Encoder.describe label Vocabulary.rdfType (.ofIri window.kind.iri)
  (Encoder.windowProperties window).forM fun (property, term) => do
    Encoder.describe label property (← Encoder.termObject term)

theorem describes_window (window : Window) :
    Describes start n (describeWindow window (start.supply n)) fun added e =>
      ∃ properties, List.Forall₂ e.Expresses (Encoder.windowProperties window) properties ∧
          added = (Vocabulary.rdfType, .ofIri window.kind.iri) :: properties := by
  have hclass : Describes start n
      (Encoder.describe (start.supply n) Vocabulary.rdfType (.ofIri window.kind.iri)) _ :=
    .one fun form _ h => absurd h (form_ne_kind form window.kind)
  have hterms : Describes start n ((Encoder.windowProperties window).forM fun expected => do
      Encoder.describe (start.supply n) expected.1 (← Encoder.termObject expected.2))
      fun added e => List.Forall₂ e.Expresses (Encoder.windowProperties window) added := by
    refine .forM (fun expected hexpected => ?_) fun expected property e e' hsound hgrows h =>
      h.grows hsound hgrows
    refine (describes_term (ne_rdfType_of_mem hexpected) expected.2).mono ?_
    rintro added e ⟨object, rfl, hstands⟩
    exact ⟨_, rfl, rfl, hstands⟩
  refine (hclass.before hterms).mono ?_
  rintro added e ⟨_, properties, rfl, rfl, hproperties⟩
  exact ⟨properties, hproperties, rfl⟩

theorem adds_window (window : Window) : Adds (Encoder.window window) fun before label e =>
    ∃ i, before.next ≤ i ∧ label = e.supply i ∧ e.IsWindow i window := by
  intro e hsound
  obtain ⟨hnext, hgrows, i, hnew, hi, hlabel, properties, hhas, described, hdescribed, rfl⟩ :=
    Adds.of_describes (describeWindow window) (fun _ _ => describes_window window) e hsound
  exact ⟨hnext, hgrows, i, hnew, hlabel, hi, described, hdescribed, hhas⟩

/-! ## Queries -/

/-- Mentions a variable in a list of variables. -/
def mention (list name : String) : Encoder Unit := do
  Encoder.describe list Vocabulary.mentions (.ofBlank (← Encoder.variableNode name))

/-- A property that mentions a variable. -/
def Mentions (e : Encoding) (name : String) (property : Iri × Object) : Prop :=
  ∃ label, property = (Vocabulary.mentions, .ofBlank label) ∧ e.labels.get? name = some label

/-- A node that mentions variables, and with no other properties. -/
def IsList (e : Encoding) (i : Nat) (names : List String) : Prop :=
  i < e.next ∧ ∃ properties, List.Forall₂ e.Mentions names properties ∧ e.Has i properties

/-- The lists of variables behind a node: there are some, unless there are no variables. -/
def AreLists (e : Encoding) (n : Nat) (names : List String) (lists : List Nat) : Prop :=
  (names ≠ [] → lists ≠ []) ∧ ∀ i ∈ lists, i ≠ n ∧ e.IsList i names

theorem Mentions.grows {name : String} {property : Iri × Object} (h : e.Mentions name property)
    (hsound : e.Sound) (hgrows : Grows n e e') : e'.Mentions name property :=
  h.imp fun _ => And.imp_right (hsound.label_grows hgrows)

theorem IsList.grows {names : List String} (h : e.IsList i names) (hsound : e.Sound)
    (hgrows : Grows n e e') (hne : i ≠ n) : e'.IsList i names := by
  obtain ⟨hi, properties, hproperties, hhas⟩ := h
  exact ⟨Nat.lt_of_lt_of_le hi hgrows.next, properties,
    hproperties.imp fun _ _ h => h.grows hsound hgrows, hhas.grows hgrows hi hne⟩

/-- A list of variables, as a node of its own. -/
theorem adds_mentions (names : List String) :
    Adds (do let list ← Encoder.fresh; names.forM (mention list); return list) fun before label e =>
      ∃ i, before.next ≤ i ∧ label = e.supply i ∧ e.IsList i names := by
  have hlist : ∀ (start : Encoding) n, Describes start n (names.forM (mention (start.supply n)))
      fun added e => List.Forall₂ e.Mentions names added := by
    intro start n
    refine .forM (fun name _ => ?_) fun name property e e' hsound hgrows h => h.grows hsound hgrows
    have hmention : Describes start n (mention (start.supply n) name) fun added e => ∃ label,
        added = [(Vocabulary.mentions, .ofBlank label)] ∧ e.labels.get? name = some label :=
      .answer (adds_variableNode name) Object.ofBlank (by decide)
        fun _ _ _ _ _ hsound hgrows h => hsound.label_grows hgrows h
    refine hmention.mono ?_
    rintro added e ⟨label, rfl, hlabel⟩
    exact ⟨_, rfl, label, rfl, hlabel⟩
  intro e hsound
  obtain ⟨hnext, hgrows, i, hnew, hi, hlabel, properties, hhas, hmentions⟩ :=
    Adds.of_describes (fun list => names.forM (mention list)) hlist e hsound
  exact ⟨hnext, hgrows, i, hnew, hlabel, hi, properties, hmentions, hhas⟩

/-- Names of variables are in a list, which is a node other than that of the query. -/
theorem describes_variableList {property : Iri} (hproperty : property ≠ Vocabulary.rdfType)
    (names : List String) :
    Describes start n (Encoder.variableList (start.supply n) property names) fun added e =>
      ∃ lists : List Nat, e.AreLists n names lists ∧
        added = lists.map fun i => (property, .ofBlank (e.supply i)) := by
  unfold Encoder.variableList
  split
  · next hempty =>
    rw [List.isEmpty_iff.mp hempty]
    exact Describes.pure.mono fun added e h => ⟨[], ⟨absurd rfl, nofun⟩, h⟩
  · have hlist : Describes start n (do
        Encoder.describe (start.supply n) property (.ofBlank (← (do
          let list ← Encoder.fresh; names.forM (mention list); return list))))
        fun added e => ∃ label, added = [(property, .ofBlank label)] ∧
          ∃ i ≠ n, label = e.supply i ∧ e.IsList i names := by
      refine .answer (adds_mentions names) Object.ofBlank hproperty ?_
      rintro e label e' e'' hn hsound hgrows ⟨i, hnew, rfl, hlist⟩
      have hne : i ≠ n := by omega
      exact ⟨i, hne, by rw [hgrows.supply], hlist.grows hsound hgrows hne⟩
    refine Describes.mono hlist ?_
    rintro added e ⟨_, rfl, i, hne, rfl, hlist⟩
    exact ⟨[i], ⟨fun _ => List.cons_ne_nil i [], List.forall_mem_singleton.mpr ⟨hne, hlist⟩⟩, rfl⟩

theorem kept_variableList (property : Iri) (names : List String) (added : List (Iri × Object)) :
    Kept n fun e => ∃ lists : List Nat, e.AreLists n names lists ∧
      added = lists.map fun i => (property, .ofBlank (e.supply i)) := by
  rintro e e' hsound hgrows ⟨lists, ⟨hnonempty, hlists⟩, rfl⟩
  refine ⟨lists, ⟨hnonempty, fun i hi => ?_⟩, by rw [hgrows.supply]⟩
  obtain ⟨hne, hlist⟩ := hlists i hi
  exact ⟨hne, hlist.grows hsound hgrows hne⟩

/-- Declares a window behind the label of a query. -/
def declare (label : String) (window : Window) : Encoder Unit := do
  Encoder.describe label Vocabulary.fromNamedWindow (.ofBlank (← Encoder.window window))

/-- A window of a query is a node other than that of the query. -/
theorem describes_declare (window : Window) :
    Describes start n (declare (start.supply n) window) fun added e =>
      ∃ i, added = [(Vocabulary.fromNamedWindow, .ofBlank (e.supply i))] ∧
        i ≠ n ∧ e.IsWindow i window := by
  have hanswer : Describes start n (declare (start.supply n) window) fun added e =>
      ∃ label, added = [(Vocabulary.fromNamedWindow, .ofBlank label)] ∧
        ∃ i ≠ n, label = e.supply i ∧ e.IsWindow i window := by
    refine .answer (adds_window window) Object.ofBlank (by decide) ?_
    rintro e label e' e'' hn hsound hgrows ⟨i, hnew, rfl, hwindow⟩
    -- the node of the window is taken after that of the query
    have hne : i ≠ n := by omega
    exact ⟨i, hne, by rw [hgrows.supply], hwindow.grows hsound hgrows hne⟩
  refine hanswer.mono ?_
  rintro added e ⟨_, rfl, i, hne, rfl, hwindow⟩
  exact ⟨i, rfl, hne, hwindow⟩

/-- The windows of a query, each with a node of its own. -/
theorem describes_windows (windows : List Window) :
    Describes start n (windows.forM (declare (start.supply n))) fun added e =>
      ∃ nodes : List Nat, List.Forall₂ (fun window i => i ≠ n ∧ e.IsWindow i window) windows nodes ∧
        added = nodes.map fun i => (Vocabulary.fromNamedWindow, .ofBlank (e.supply i)) := by
  have hloop : Describes start n (windows.forM (declare (start.supply n))) fun added e =>
      List.Forall₂ (fun window property => ∃ i,
        property = (Vocabulary.fromNamedWindow, .ofBlank (e.supply i)) ∧
          i ≠ n ∧ e.IsWindow i window) windows added := by
    refine .forM (fun window _ => (describes_declare window).mono ?_) ?_
    · rintro added e ⟨i, rfl, hne, hwindow⟩
      exact ⟨_, rfl, i, rfl, hne, hwindow⟩
    · rintro window property e e' hsound hgrows ⟨i, rfl, hne, hwindow⟩
      exact ⟨i, by rw [hgrows.supply], hne, hwindow.grows hsound hgrows hne⟩
  exact hloop.mono fun added e hadded => exists_map_of_forall₂ hadded

theorem describes_optionalTerm {property : Iri} (hproperty : property ≠ Vocabulary.rdfType)
    (term : Option Term) :
    Describes start n (Encoder.optionalTerm (start.supply n) property term) fun added e =>
      ∃ objects, List.Forall₂ e.Stands term.toList objects ∧
        added = objects.map fun object => (property, object) := by
  cases term with
  | none =>
      refine Describes.pure.mono fun added e h => ⟨[], .nil, h⟩
  | some value =>
      refine (describes_term hproperty value).mono ?_
      rintro added e ⟨object, rfl, hstands⟩
      exact ⟨[object], .cons hstands .nil, rfl⟩

theorem kept_optionalTerm (property : Iri) (term : Option Term) (added : List (Iri × Object)) :
    Kept n fun e => ∃ objects, List.Forall₂ e.Stands term.toList objects ∧
      added = objects.map fun object => (property, object) := by
  rintro e e' hsound hgrows ⟨objects, hobjects, rfl⟩
  exact ⟨objects, hobjects.imp fun _ _ h => h.grows hsound hgrows, rfl⟩

theorem describes_optional {property : Iri} (hproperty : property ≠ Vocabulary.rdfType)
    (object : Option Object) :
    Describes start n (Encoder.optional (.blank (start.supply n)) property object) fun added _ =>
      added = object.toList.map fun object => (property, object) := by
  cases object with
  | none => exact Describes.pure
  | some object => exact .one fun _ h => absurd h hproperty

/-- Properties with several objects each, one by one. -/
def spread (groups : List (Iri × List Object)) : List (Iri × Object) :=
  groups.flatMap fun group => group.2.map fun object => (group.1, object)

theorem mem_spread {groups : List (Iri × List Object)} (hkeys : (groups.map Prod.fst).Nodup)
    {property : Iri} {objects : List Object} (h : (property, objects) ∈ groups) (object : Object) :
    (property, object) ∈ spread groups ↔ object ∈ objects := by
  constructor
  · intro hmem
    obtain ⟨group, hgroup, hobject⟩ := List.mem_flatMap.mp hmem
    obtain ⟨other, hother, heq⟩ := List.mem_map.mp hobject
    obtain ⟨rfl, rfl⟩ := Prod.mk.inj heq
    have hsame := List.inj_on_of_nodup_map hkeys hgroup h rfl
    rwa [hsame] at hother
  · intro hmem
    exact List.mem_flatMap.mpr ⟨_, h, List.mem_map.mpr ⟨object, hmem, rfl⟩⟩

/-- What an encoding says of a query. -/
structure IsQuery (e : Encoding) (n : Nat) (query : Query) : Prop where
  form : ∀ value, e.Says n Vocabulary.rdfType value ↔ value ∈ [.ofIri query.form.iri]
  text : ∀ value, e.Says n Vocabulary.queryText value ↔ value ∈ [.ofString query.bodyText]
  pattern : ∃ lists : List Nat, e.AreLists n query.body.patternVariables lists ∧
    ∀ value, e.Says n Vocabulary.wherePattern value ↔ value ∈ lists.map fun i => .ofBlank (e.supply i)
  results : ∃ lists : List Nat, e.AreLists n query.body.projectedVariables lists ∧
    ∀ value, e.Says n Vocabulary.resultVariables value ↔ value ∈ lists.map fun i => .ofBlank (e.supply i)
  windows : ∃ nodes : List Nat,
    List.Forall₂ (fun window i => i ≠ n ∧ e.IsWindow i window) (Window.sorted query.windows) nodes ∧
      ∀ value, e.Says n Vocabulary.fromNamedWindow value ↔
        value ∈ nodes.map fun i => .ofBlank (e.supply i)
  output : ∃ objects, List.Forall₂ e.Stands query.output.toList objects ∧
    ∀ value, e.Says n Vocabulary.hasOutputStream value ↔ value ∈ objects
  operator : ∀ value, e.Says n Vocabulary.hasOutputStreamOperator value ↔
    value ∈ (query.operator.iri?.map .ofIri).toList

theorem IsQuery.grows {query : Query} (h : e.IsQuery i query) (hsound : e.Sound)
    (hgrows : Grows e.next e e') (hi : i < e.next) : e'.IsQuery i query := by
  have htold : ∀ property (values : List Object),
      (∀ value, e.Says i property value ↔ value ∈ values) →
      ∀ value, e'.Says i property value ↔ value ∈ values := fun property values h value =>
    (hgrows.same i hi (Nat.ne_of_lt hi) property value).trans (h value)
  have hlists : ∀ names lists, e.AreLists i names lists → e'.AreLists i names lists :=
    fun names lists h => ⟨h.1, fun list hlist =>
      ⟨(h.2 list hlist).1, (h.2 list hlist).2.grows hsound hgrows (Nat.ne_of_lt (h.2 list hlist).2.1)⟩⟩
  obtain ⟨pattern, hpattern, hwhere⟩ := h.pattern
  obtain ⟨results, hresults, hresult⟩ := h.results
  obtain ⟨nodes, hnodes, hwindows⟩ := h.windows
  obtain ⟨objects, hobjects, houtput⟩ := h.output
  rw [← hgrows.supply] at hwhere hresult hwindows
  exact ⟨htold _ _ h.form, htold _ _ h.text, ⟨pattern, hlists _ _ hpattern, htold _ _ hwhere⟩,
    ⟨results, hlists _ _ hresults, htold _ _ hresult⟩,
    ⟨nodes, hnodes.imp fun _ _ h => ⟨h.1, h.2.grows hsound hgrows (Nat.ne_of_lt h.2.1)⟩,
      htold _ _ hwindows⟩,
    ⟨objects, hobjects.imp fun _ _ h => h.grows hsound hgrows, htold _ _ houtput⟩,
    htold _ _ h.operator⟩

/-- The node of a query has been taken. -/
theorem IsQuery.lt {query : Query} (h : e.IsQuery i query) (hsound : e.Sound) : i < e.next := by
  have hform := (h.form (.ofIri query.form.iri)).mpr List.mem_cons_self
  obtain ⟨j, hj, hlabel⟩ := hsound.owned _ hform _ rfl
  rw [hsound.distinct hlabel]
  exact hj

/-- The description of a query behind its label. -/
def describeQuery (query : Query) (label : String) : Encoder Unit := do
  Encoder.describe label Vocabulary.rdfType (.ofIri query.form.iri)
  Encoder.describe label Vocabulary.queryText (.ofString query.bodyText)
  Encoder.variableList label Vocabulary.wherePattern query.body.patternVariables
  Encoder.variableList label Vocabulary.resultVariables query.body.projectedVariables
  (Window.sorted query.windows).forM (declare label)
  Encoder.optionalTerm label Vocabulary.hasOutputStream query.output
  Encoder.optional (.blank label) Vocabulary.hasOutputStreamOperator (query.operator.iri?.map .ofIri)

/-- The properties of a query, with the objects that are nodes of their own. -/
def queryProperties (query : Query) (pattern result windows output : List Object) :
    List (Iri × List Object) :=
  [(Vocabulary.rdfType, [.ofIri query.form.iri]),
    (Vocabulary.queryText, [.ofString query.bodyText]),
    (Vocabulary.wherePattern, pattern), (Vocabulary.resultVariables, result),
    (Vocabulary.fromNamedWindow, windows), (Vocabulary.hasOutputStream, output),
    (Vocabulary.hasOutputStreamOperator, (query.operator.iri?.map .ofIri).toList)]

theorem nodup_queryProperties (query : Query) (pattern result windows output : List Object) :
    ((queryProperties query pattern result windows output).map Prod.fst).Nodup := by
  change [Vocabulary.rdfType, Vocabulary.queryText, Vocabulary.wherePattern,
    Vocabulary.resultVariables, Vocabulary.fromNamedWindow, Vocabulary.hasOutputStream,
    Vocabulary.hasOutputStreamOperator].Nodup
  decide

theorem describes_query (query : Query) :
    Describes start 0 (describeQuery query (start.supply 0)) fun added e =>
      ∃ (patterns lists nodes : List Nat) (objects : List Object),
        e.AreLists 0 query.body.patternVariables patterns ∧
        e.AreLists 0 query.body.projectedVariables lists ∧
        List.Forall₂ (fun window i => i ≠ 0 ∧ e.IsWindow i window) (Window.sorted query.windows) nodes ∧
        List.Forall₂ e.Stands query.output.toList objects ∧
        added = spread (queryProperties query (patterns.map fun i => .ofBlank (e.supply i))
          (lists.map fun i => .ofBlank (e.supply i)) (nodes.map fun i => .ofBlank (e.supply i))
          objects) := by
  -- only the node of the query may have the class of a form
  have hform : Describes start 0 (Encoder.describe (start.supply 0) Vocabulary.rdfType
      (.ofIri query.form.iri)) _ := .one fun _ _ _ => rfl
  have htext : Describes start 0 (Encoder.describe (start.supply 0) Vocabulary.queryText
      (.ofString query.bodyText)) _ := .one fun _ h => absurd h (by decide)
  have hpattern : Describes start 0 (Encoder.variableList (start.supply 0) Vocabulary.wherePattern
      query.body.patternVariables) _ := describes_variableList (by decide) _
  have hresult : Describes start 0 (Encoder.variableList (start.supply 0) Vocabulary.resultVariables
      query.body.projectedVariables) _ := describes_variableList (by decide) _
  have houtput : Describes start 0 (Encoder.optionalTerm (start.supply 0) Vocabulary.hasOutputStream
      query.output) _ := describes_optionalTerm (by decide) query.output
  have hoperator : Describes start 0 (Encoder.optional (.blank (start.supply 0))
      Vocabulary.hasOutputStreamOperator (query.operator.iri?.map .ofIri)) _ :=
    describes_optional (by decide) _
  have hwindows : Describes start 0 ((Window.sorted query.windows).forM (declare (start.supply 0))) _ :=
    describes_windows _
  refine (hform.before (htext.before (hpattern.seq (hresult.seq (hwindows.seq
    (houtput.seq hoperator (kept_optionalTerm _ _)) ?_) (kept_variableList _ _))
    (kept_variableList _ _)))).mono ?_
  · rintro added e e' hsound hgrows ⟨nodes, hnodes, rfl⟩
    refine ⟨nodes, hnodes.imp fun _ _ h => ⟨h.1, h.2.grows hsound hgrows h.1⟩, ?_⟩
    rw [hgrows.supply]
  · rintro added e ⟨_, _, rfl, rfl, _, _, rfl, rfl, _, _, rfl, ⟨patterns, hpatterns, rfl⟩, _, _, rfl,
      ⟨lists, hlists, rfl⟩, _, _, rfl, ⟨nodes, hnodes, rfl⟩, _, _, rfl, ⟨objects, hobjects, rfl⟩, rfl⟩
    refine ⟨patterns, lists, nodes, objects, hpatterns, hlists, hnodes, hobjects, ?_⟩
    simp [spread, queryProperties, Function.comp_def]

/-- What the encoder writes of a query. -/
theorem run_query {supply : Nat → String} (hsupply : Function.Injective supply) (query : Query) :
    ((Encoder.query query).run (.empty supply)).1 = supply 0 ∧
      ((Encoder.query query).run (.empty supply)).2.supply = supply ∧
      ((Encoder.query query).run (.empty supply)).2.Sound ∧
      ((Encoder.query query).run (.empty supply)).2.IsQuery 0 query := by
  have hstart : Building (.empty supply) 0 [] { Encoding.empty supply with next := 1 } :=
    (Sound.empty hsupply).building
  obtain ⟨added, hbuilding, -, patterns, lists, nodes, objects, hpatterns, hlists, hnodes, hobjects,
    rfl⟩ := describes_query query [] _ hstart
  have hhas := hbuilding.has
  rw [List.nil_append] at hhas
  have htold : ∀ property values, (property, values) ∈ queryProperties query _ _ _ objects →
      ∀ value, Says _ 0 property value ↔ value ∈ values := fun property values h value =>
    (hhas property value).trans (mem_spread (nodup_queryProperties ..) h value)
  have hquery : IsQuery _ 0 query := {
    form := htold _ _ (by simp [queryProperties])
    text := htold _ _ (by simp [queryProperties])
    pattern := ⟨patterns, hpatterns, htold _ _ (.tail _ (.tail _ (.head _)))⟩
    results := ⟨lists, hlists, htold _ _ (.tail _ (.tail _ (.tail _ (.head _))))⟩
    windows := ⟨nodes, hnodes, htold _ _ (by simp [queryProperties])⟩
    output := ⟨objects, hobjects, htold _ _ (by simp [queryProperties])⟩
    operator := htold _ _ (by simp [queryProperties]) }
  exact ⟨rfl, hbuilding.supply_eq, hbuilding.sound, hquery⟩

theorem encoded_query {supply : Nat → String} (hsupply : Function.Injective supply) (query : Query) :
    ∃ e : Encoding, e.Sound ∧ e.IsQuery 0 query ∧ e.graph = query.graphWith supply := by
  obtain ⟨-, -, hsound, hquery⟩ := run_query hsupply query
  exact ⟨_, hsound, hquery, rfl⟩

end Encoding

end StreamQuery
