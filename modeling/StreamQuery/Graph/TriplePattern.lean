import StreamQuery.Graph

/-!
# Triple patterns

Patterns that the triples of a graph are matched against: terms that may be open, and paths that
lead from one node to another. A graph is asked for the ways in which all of some patterns can be
matched at once.
-/

namespace StreamQuery

/-- A term of a pattern. A variable stands for the same thing everywhere, and so does a label of a
blank node. -/
inductive PatternTerm where
  | variable (name : String)
  | blank (label : String)
  | ground (value : Object)
  deriving DecidableEq

/-- A way through a graph. -/
inductive PropertyPath where
  | property (iri : Iri)
  /-- Any property but some. -/
  | excluding (properties : List Iri)
  /-- The other way round. -/
  | inverse (path : PropertyPath)
  /-- One way and then another. -/
  | sequence (first second : PropertyPath)
  /-- One way or another. -/
  | choice (first second : PropertyPath)
  /-- A way or none. -/
  | optional (path : PropertyPath)
  /-- A way taken any number of times. -/
  | repeated (path : PropertyPath)

namespace PropertyPath

/-- A way taken at least once. -/
def repeatedOnce (path : PropertyPath) : PropertyPath := .sequence path (.repeated path)

end PropertyPath

/-- What stands between the subject and the object of a pattern. -/
inductive Verb where
  | variable (name : String)
  | path (value : PropertyPath)

/-- A pattern for triples. -/
structure TriplePattern where
  subject : PatternTerm
  verb : Verb
  object : PatternTerm

namespace PatternTerm

/-- The names of the variables of a term: one at most. -/
def variableNames : PatternTerm → List String
  | .variable name => [name]
  | _ => []

end PatternTerm

/-- The names of the variables of a pattern. -/
def TriplePattern.variableNames (pattern : TriplePattern) : List String :=
  let verb := match pattern.verb with
    | .variable name => [name]
    | .path _ => []
  pattern.subject.variableNames ++ verb ++ pattern.object.variableNames

namespace Graph

/-! ## Paths -/

/-- The subjects and objects of all triples. -/
def nodes (graph : Graph) : List Object :=
  (graph.triples.flatMap fun triple => [.node triple.subject, triple.object]).eraseDups

/-- The objects reached so far, with those that at most so many more steps lead to from the ones
that were reached last. -/
def spread (next : Object → List Object) : Nat → List Object → List Object → List Object
  | 0, reached, _ => reached
  | steps + 1, reached, latest =>
    match ((latest.flatMap next).filter (!reached.contains ·)).eraseDups with
    | [] => reached
    | fresh => spread next steps (reached ++ fresh) fresh

/-- The objects that any number of steps leads to. A graph has at most two nodes for each triple,
so that twice as many steps as there are triples are enough. -/
def closure (graph : Graph) (next : Object → List Object) (start : Object) : List Object :=
  spread next (2 * graph.size) [start] [start]

/-- The objects that a path leads to, or those that it comes from. -/
def ends (graph : Graph) (backward : Bool) : PropertyPath → Object → List Object
  | .property iri, start => graph.triples.filterMap fun triple =>
      if triple.predicate = iri then
        if backward then
          if triple.object = start then some (.node triple.subject) else none
        else if .node triple.subject = start then some triple.object else none
      else none
  | .excluding properties, start => graph.triples.filterMap fun triple =>
      if triple.predicate ∈ properties then none
      else if backward then
        if triple.object = start then some (.node triple.subject) else none
      else if .node triple.subject = start then some triple.object else none
  | .inverse path, start => graph.ends (!backward) path start
  | .sequence first second, start =>
      if backward then (graph.ends backward second start).flatMap (graph.ends backward first)
      else (graph.ends backward first start).flatMap (graph.ends backward second)
  | .choice first second, start =>
      graph.ends backward first start ++ graph.ends backward second start
  | .optional path, start => start :: graph.ends backward path start
  | .repeated path, start => graph.closure (graph.ends backward path) start

/-- Whether a path leads from one object to another. -/
def connects (graph : Graph) (path : PropertyPath) (first last : Object) : Bool :=
  (graph.ends false path first).contains last

/-! ## Patterns -/

/-- What open terms stand for. -/
abbrev Solution := List (PatternTerm × Object)

/-- What a term stands for, if that is known. -/
def valueIn (solution : Solution) : PatternTerm → Option Object
  | .ground value => some value
  | term => solution.lookup term

/-- A solution in which a term stands for an object, unless it stands for another one. -/
def assign (solution : Solution) (term : PatternTerm) (object : Object) : Option Solution :=
  match valueIn solution term with
  | some known => if known = object then some solution else none
  | none => some ((term, object) :: solution)

/-- The solutions with a match of one more pattern. -/
def extend (graph : Graph) (pattern : TriplePattern) (solution : Solution) : List Solution :=
  match pattern.verb with
  | .variable name => graph.triples.filterMap fun triple => do
      let solution ← assign solution pattern.subject (.node triple.subject)
      let solution ← assign solution (.variable name) (.ofIri triple.predicate)
      assign solution pattern.object triple.object
  | .path path =>
      let starts := match valueIn solution pattern.subject with
        | some start => [start]
        | none => (graph.nodes ++ (valueIn solution pattern.object).toList).eraseDups
      starts.flatMap fun start =>
        (graph.ends false path start).eraseDups.filterMap fun last => do
          assign (← assign solution pattern.subject start) pattern.object last

/-- The ways in which all patterns are matched at once. -/
def solutions (graph : Graph) (patterns : List TriplePattern) : List Solution :=
  patterns.foldl (fun found pattern => found.flatMap (graph.extend pattern)) [[]]

end Graph

end StreamQuery
