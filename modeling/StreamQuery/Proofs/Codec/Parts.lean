import StreamQuery.Proofs.Codec.Argument

/-! # The parts of a graph of templates

Templates are written one after another into one graph. Each of them adds its part: blank nodes with new
labels, as if they had been written on their own, and what is said of the handle.
-/

namespace StreamQuery

/-- The blank nodes of a template: that of its body, and those of its arguments. -/
def Encoder.nodes (template : Template) : Encoder (String × List String) := do
  let body ← query template.body
  let arguments ← template.arguments.mapM argument
  return (body, arguments)

namespace Encoding

theorem adds_arguments (arguments : List Argument) :
    Adds (arguments.mapM Encoder.argument) fun _ labels e =>
      List.Forall₂ (fun argument label => ∃ i, label = e.supply i ∧ e.IsArgument i argument)
        arguments labels := by
  induction arguments with
  | nil => exact fun e hsound => ⟨hsound, fun n => .refl n e, .nil⟩
  | cons argument arguments ih =>
      intro e hsound
      rw [List.mapM_cons]
      obtain ⟨hbetween, hgrows, i, hlabel, hargument⟩ := adds_argument argument e hsound
      obtain ⟨hnext, hgrows', hlabels⟩ := ih _ hbetween
      refine ⟨hnext, fun n => (hgrows n).trans (hgrows' n), .cons ⟨i, ?_, ?_⟩ hlabels⟩
      · exact hlabel.trans (congrFun (hgrows' 0).supply i).symm
      · -- the nodes that are taken later are other nodes
        exact hargument.grows hbetween (hgrows' _) (Nat.ne_of_lt hargument.1)

/-- What the blank nodes of a template say, written on their own. -/
theorem run_nodes {supply : Nat → String} (hsupply : Function.Injective supply) (template : Template) :
    ∃ nodes own, (Encoder.nodes template).run (.empty supply) = ((supply 0, nodes.map supply), own) ∧
      own.supply = supply ∧ own.Sound ∧ own.IsQuery 0 template.body ∧
      List.Forall₂ (fun argument i => own.IsArgument i argument) template.arguments nodes := by
  obtain ⟨hlabel, hsame, hsound, hquery⟩ := run_query hsupply template.body
  obtain ⟨hnext, hgrows, hlabels⟩ := adds_arguments template.arguments _ hsound
  obtain ⟨nodes, hnodes, hmap⟩ := exists_map_of_forall₂ hlabels
  have hkept := (hgrows 0).supply.trans hsame
  rw [hkept] at hmap
  exact ⟨nodes, _, Prod.ext (Prod.ext hlabel hmap) rfl, hkept, hnext,
    hquery.grows hsound (hgrows _) (hquery.lt hsound), hnodes⟩

/-- The labels that have not been taken. -/
def rest (e : Encoding) (i : Nat) : String := e.supply (e.next + i)

end Encoding

/-- The properties of the handle of a template. -/
def Template.properties (template : Template) (body : Object) (arguments : List Object) :
    List (Iri × List Object) :=
  [(Vocabulary.rdfType,
      [.ofIri Vocabulary.templateClass, .ofIri (Encoder.templateType template.body.form)]),
    (Vocabulary.templateBody, [body]),
    (Vocabulary.rdfsLabel, (template.label.map .ofString).toList),
    (Vocabulary.rdfsComment, (template.comment.map .ofString).toList),
    (Vocabulary.templateConstraint, arguments)]

/-! ## Handles behind blank nodes -/

namespace Relabelling

/-- Triples, and properties of one node. -/
def saying (before : Set Triple) (node : Node) (said : List (Iri × Object)) : Set Triple :=
  before ∪ {triple | triple.subject = node ∧ (triple.predicate, triple.object) ∈ said}

variable {ρ : Relabelling} {before : Set Triple} {node : Node} {said : List (Iri × Object)}
  {e e' : Encoding}

theorem saying_nil : saying before node [] = before := by
  simp [saying]

theorem Relates.say (h : ρ.Relates (saying before node said) e e') (property : Iri) (object : Object) :
    ρ.Relates (saying before node (said ++ [(property, object)])) e
      ((Encoder.add node property object).run e').2 where
  supply := h.supply
  supply' := h.supply'
  next := h.next
  labels := h.labels
  known := h.known
  triples triple := by
    obtain ⟨subject, predicate, value⟩ := triple
    refine Graph.mem_add.trans ?_
    rw [h.triples]
    simp only [saying, Set.mem_union, Set.mem_ofPred_eq, List.mem_append, List.mem_singleton,
      Triple.mk.injEq, Prod.mk.injEq]
    tauto
  owned := h.owned

theorem Relates.sayOptional (h : ρ.Relates (saying before node said) e e') (property : Iri)
    (object : Option Object) :
    ρ.Relates (saying before node (said ++ object.toList.map fun value => (property, value))) e
      ((Encoder.optional node property object).run e').2 := by
  cases object with
  | none =>
      rw [Option.toList_none, List.map_nil, List.append_nil]
      exact h
  | some value => exact h.say property value

theorem Relates.sayNode (hmap : ρ.map = id) (h : ρ.Relates (saying before node said) e e')
    {label label' : String} (hlabel : ρ.SameLabel label label') (property : Iri) :
    ρ.Relates (saying before node (said ++ [(property, .ofBlank label)])) e
      ((Encoder.add node property (.ofBlank label')).run e').2 := by
  obtain ⟨-, rfl⟩ := hlabel
  rw [hmap]
  exact h.say property _

/-- The arguments are written one by one, and the handle is said to have them in between. -/
theorem Relates.sayArguments (hmap : ρ.map = id) (property : Iri) (arguments : List Argument)
    (h : ρ.Relates (saying before node said) e e') :
    ρ.Relates
      (saying before node (said ++
        ((arguments.mapM Encoder.argument).run e).1.map fun label => (property, .ofBlank label)))
      ((arguments.mapM Encoder.argument).run e).2
      ((arguments.forM fun argument => do
        Encoder.add node property (.ofBlank (← Encoder.argument argument))).run e').2 := by
  induction arguments generalizing said e e' with
  | nil =>
      change ρ.Relates (saying before node (said ++ [])) e e'
      rw [List.append_nil]
      exact h
  | cons argument arguments ih =>
      obtain ⟨hlabel, hone⟩ := follows_argument argument _ _ _ h
      have hrest := ih (hone.sayNode hmap hlabel property)
      rw [List.append_assoc] at hrest
      rw [List.mapM_cons]
      exact hrest

/-- A template is written as its blank nodes are, with what is said of the handle in between. -/
theorem Relates.template (hmap : ρ.map = id) (template : Template)
    (h : ρ.Relates before (.empty ρ.supply) e') :
    ρ.Relates
      (saying before (.iri template.handle) (Encoding.spread (template.properties
        (.ofBlank ((Encoder.nodes template).run (.empty ρ.supply)).1.1)
        (((Encoder.nodes template).run (.empty ρ.supply)).1.2.map .ofBlank))))
      ((Encoder.nodes template).run (.empty ρ.supply)).2 ((Encoder.template template).run e').2 := by
  have hstart : ρ.Relates (saying before (.iri template.handle) []) (.empty ρ.supply) e' := by
    rw [saying_nil]
    exact h
  have htypes := (hstart.say Vocabulary.rdfType (.ofIri Vocabulary.templateClass)).say
    Vocabulary.rdfType (.ofIri (Encoder.templateType template.body.form))
  obtain ⟨hlabel, hquery⟩ := follows_query template.body _ _ _ htypes
  have hbody := hquery.sayNode hmap hlabel Vocabulary.templateBody
  have htexts := (hbody.sayOptional Vocabulary.rdfsLabel (template.label.map .ofString)).sayOptional
    Vocabulary.rdfsComment (template.comment.map .ofString)
  have harguments := htexts.sayArguments hmap Vocabulary.templateConstraint template.arguments
  have hsaid : ∀ (body : Object) (labels : List String),
      Encoding.spread (template.properties body (labels.map .ofBlank)) =
        [] ++ [(Vocabulary.rdfType, .ofIri Vocabulary.templateClass)] ++
          [(Vocabulary.rdfType, .ofIri (Encoder.templateType template.body.form))] ++
          [(Vocabulary.templateBody, body)] ++
          ((template.label.map .ofString).toList.map fun value => (Vocabulary.rdfsLabel, value)) ++
          ((template.comment.map .ofString).toList.map fun value => (Vocabulary.rdfsComment, value)) ++
          labels.map fun label => (Vocabulary.templateConstraint, .ofBlank label) := by
    intro body labels
    simp [Encoding.spread, Template.properties]
  rw [hsaid]
  exact harguments

end Relabelling

/-! ## Parts -/

/-- The part of a graph that tells one template: its blank nodes, of which the first one is the body, in
an encoding of their own. -/
structure TemplatePart where
  template : Template
  encoding : Encoding
  /-- The numbers of the nodes of the arguments. -/
  nodes : List Nat
  sound : encoding.Sound
  body : encoding.IsQuery 0 template.body
  arguments : List.Forall₂ (fun argument i => encoding.IsArgument i argument) template.arguments nodes
  blank : ∀ triple ∈ encoding.graph.triples, ∃ label, triple.subject = .blank label
  classes : ∀ triple ∈ encoding.graph.triples, triple.predicate = Vocabulary.rdfType →
    ∃ type ∈ nodeClasses, triple.object = .ofIri type

namespace TemplatePart

/-- The properties of the handle. -/
def properties (part : TemplatePart) : List (Iri × List Object) :=
  part.template.properties (.ofBlank (part.encoding.supply 0))
    (part.nodes.map fun i => .ofBlank (part.encoding.supply i))

/-- The triples of a part. -/
def Tells (part : TemplatePart) (triple : Triple) : Prop :=
  triple ∈ part.encoding.graph.triples ∨
    triple.subject = .iri part.template.handle ∧
      (triple.predicate, triple.object) ∈ Encoding.spread part.properties

/-- Parts without a label in common. -/
def Apart (part other : TemplatePart) : Prop :=
  ∀ i < part.encoding.next, ∀ j < other.encoding.next, part.encoding.supply i ≠ other.encoding.supply j

instance : Std.Symm Apart where
  symm _ _ h j hj i hi heq := h i hi j hj heq.symm

end TemplatePart

namespace Encoding

variable {e : Encoding}

/-- A template adds its part to a graph, with labels that had not been taken. -/
theorem exists_part (template : Template) (hlabels : e.labels = SortedMap.empty)
    (hrest : Function.Injective e.rest) :
    ∃ part : TemplatePart, part.template = template ∧ part.encoding.supply = e.rest ∧
      (((Encoder.template template).run e).2.rest = fun i => e.rest (part.encoding.next + i)) ∧
      ∀ triple, triple ∈ ((Encoder.template template).run e).2.graph.triples ↔
        triple ∈ e.graph.triples ∨ part.Tells triple := by
  let ρ : Relabelling := ⟨e.rest, id, hrest, e.next⟩
  have hstart : ρ.Relates {triple | triple ∈ e.graph.triples} (.empty e.rest) e := {
    supply := rfl
    supply' := fun _ => rfl
    next := rfl
    labels := fun name => by
      rw [hlabels]
      rfl
    known := nofun
    triples := fun triple => (or_iff_left fun ⟨_, h, _⟩ => List.not_mem_nil h).symm
    owned := nofun }
  have hrelates := Relabelling.Relates.template rfl template hstart
  obtain ⟨nodes, own, hrun, hsupply, hsound, hquery, hnodes⟩ := run_nodes hrest template
  rw [show ρ.supply = e.rest from rfl, hrun] at hrelates
  refine ⟨⟨template, own, nodes, hsound, hquery, hnodes, fun triple h => (hrelates.owned triple h).blank,
    fun triple h => (hrelates.owned triple h).classes⟩, rfl, hsupply, ?_, fun triple => ?_⟩
  · funext i
    rw [rest, hrelates.next, Nat.add_assoc]
    exact hrelates.supply' _
  · have hproperties : template.properties (.ofBlank (own.supply 0))
        (nodes.map fun i => .ofBlank (own.supply i)) =
        template.properties (.ofBlank (e.rest 0)) ((nodes.map e.rest).map .ofBlank) := by
      rw [hsupply, List.map_map]
      rfl
    refine (hrelates.triples triple).trans ?_
    rw [TemplatePart.Tells, TemplatePart.properties, hproperties]
    simp only [show ρ.map = id from rfl, Triple.rename_id, exists_eq_right', Relabelling.saying,
      Set.mem_union, Set.mem_ofPred_eq]
    tauto

/-- Templates that are written one after another add one part each, and no two parts share a label. -/
theorem exists_parts (templates : List Template) (hrest : Function.Injective e.rest) :
    ∃ parts : List TemplatePart, parts.map TemplatePart.template = templates ∧
      (∀ triple, triple ∈ ((Encoder.templates templates).run e).2.graph.triples ↔
        triple ∈ e.graph.triples ∨ ∃ part ∈ parts, part.Tells triple) ∧
      parts.Pairwise TemplatePart.Apart ∧
      ∀ part ∈ parts, ∀ i, ∃ k, part.encoding.supply i = e.rest k := by
  induction templates generalizing e with
  | nil =>
      exact ⟨[], rfl, fun triple => (or_iff_left fun ⟨_, h, _⟩ => List.not_mem_nil h).symm, .nil,
        fun _ h => absurd h List.not_mem_nil⟩
  | cons template templates ih =>
      obtain ⟨part, rfl, hsupply, hnext, htriples⟩ :=
        exists_part (e := { e with labels := SortedMap.empty }) template rfl hrest
      have hrest' : Function.Injective
          ((Encoder.template part.template).run { e with labels := SortedMap.empty }).2.rest := by
        rw [hnext]
        exact hrest.comp fun i j h => Nat.add_left_cancel h
      obtain ⟨parts, rfl, htriples', happart, hlabels⟩ := ih hrest'
      rw [hnext] at hlabels
      refine ⟨part :: parts, rfl, fun triple => (htriples' triple).trans ?_, ?_, ?_⟩
      · rw [htriples]
        simp only [List.exists_mem_cons_iff, or_assoc]
      · -- the labels of the other parts were taken later
        refine .cons (fun other hother i hi j _ heq => ?_) happart
        obtain ⟨k, hk⟩ := hlabels other hother j
        rw [hsupply, hk] at heq
        exact absurd (hrest heq) (by omega)
      · refine List.forall_mem_cons.mpr ⟨fun i => ⟨i, congrFun hsupply i⟩, fun other hother i => ?_⟩
        obtain ⟨k, hk⟩ := hlabels other hother i
        exact ⟨_, hk⟩

end Encoding

/-- A graph that is made of parts for templates with handles of their own. -/
structure Graph.MadeOf (graph : Graph) (parts : List TemplatePart) : Prop where
  triples : ∀ triple, triple ∈ graph.triples ↔ ∃ part ∈ parts, part.Tells triple
  apart : parts.Pairwise TemplatePart.Apart
  handles : (parts.map (·.template.handle)).Nodup

/-- The graph of several templates is made of their parts, with any labels that can be told apart. -/
theorem Encoder.madeOf_templates {templates : List Template}
    (hhandles : (templates.map Template.handle).Nodup) {supply : Nat → String}
    (hsupply : Function.Injective supply) :
    ∃ parts : List TemplatePart, parts.map TemplatePart.template = templates ∧
      ((Encoder.templates templates).graphWith supply).MadeOf parts := by
  have hrest : Function.Injective (Encoding.empty supply).rest := fun i j h => by
    have hnumbers := hsupply h
    omega
  obtain ⟨parts, rfl, htriples, hapart, -⟩ := Encoding.exists_parts templates hrest
  refine ⟨parts, rfl, fun triple => (htriples triple).trans (or_iff_right List.not_mem_nil), hapart, ?_⟩
  rwa [List.map_map] at hhandles

/-- The graph of one template is made of one part. -/
theorem Encoder.madeOf_template (template : Template) {supply : Nat → String}
    (hsupply : Function.Injective supply) :
    ∃ part : TemplatePart, part.template = template ∧
      ((Encoder.template template).graphWith supply).MadeOf [part] := by
  have hhandles : ([template].map Template.handle).Nodup := List.nodup_singleton _
  obtain ⟨parts, hparts, hmade⟩ := madeOf_templates hhandles hsupply
  obtain ⟨part, rfl, rfl⟩ := List.map_eq_singleton_iff.mp hparts
  exact ⟨part, rfl, hmade⟩

end StreamQuery
