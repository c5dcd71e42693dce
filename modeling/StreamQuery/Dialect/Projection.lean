import StreamQuery.Dialect.Plan
import StreamQuery.Pattern.Graphs
import StreamQuery.Query.Printer

/-!
# Projections

A query written in each of the dialects.
-/

namespace StreamQuery

open Projecting

namespace CSparql

/-- The last segment of a stream's IRI behind a slash or a hash, which names the query. -/
def queryName : Term → String
  | .iri i =>
    let isBreak (c : Char) : Bool := c == '/' || c == '#'
    let trimmed := i.text.toList.reverse.dropWhile isBreak
    String.ofList (trimmed.takeWhile (!isBreak ·)).reverse
  | .variable v => v.name
  | .literal l => l.value

/-- The clause of a window. A missing step is written as the smallest one. -/
def streamClause (strict : Bool) (window : Window) : Projecting String := do
  let frame ← match window.frame with
    | .logical range => do
      let range ← liftM (window.durationText .cSparql "range" range)
      let step ← match window.step with
        | some step => pure step
        | none => do
          warn s!"STEP of window {window.id.text} is missing, using the minimum value (1ms)"
          pure (Term.ofDuration .millisecond)
      let step ← liftM (window.durationText .cSparql "step" step)
      pure ("RANGE " ++ range ++ " STEP " ++ step)
    | .physical items => window.itemsFrame .cSparql strict items
    | .past _ _ => throw (.windowKind .cSparql window.kind)
  return "FROM STREAM " ++ window.stream.text ++ " [" ++ frame ++ "]"

/-- The registration of a query that has an output stream. -/
def registerMarks (form : QueryForm) (output : Option Term) : List Mark :=
  match output with
  | none => []
  | some stream =>
    let keyword := if form = .select then "QUERY" else "STREAM"
    Mark.line ("REGISTER " ++ keyword ++ " " ++ queryName stream ++ " AS") ++ [.blankLine]

/-- A query in C-SPARQL: one clause for each stream, and the registration at the top. -/
def project (query : Query) (strict : Bool) : Projecting String := do
  let plan ← Plan.ofQuery .cSparql Dialect.cSparql.capabilities strict query
  let clauses ← plan.windows.mapM (streamClause strict)
  return Page.render (registerMarks query.form plan.output ++ query.prologue.marks ++
    query.body.marks ⟨none, clauses, fun _ => none⟩)

end CSparql

namespace CqelsQl

/-- The header of a window's blocks. -/
def streamHeader (strict : Bool) (window : Window) : Projecting String := do
  let frame ← match window.frame with
    | .logical range => do
      let range ← liftM (window.durationText .cqelsQl "range" range)
      match window.step with
      | some step =>
        let step ← liftM (window.durationText .cqelsQl "step" step)
        pure ("RANGE " ++ range ++ " SLIDE " ++ step)
      | none => pure ("RANGE " ++ range)
    | .physical items => window.itemsFrame .cqelsQl strict items
    | .past _ _ => throw (.windowKind .cqelsQl window.kind)
  return "STREAM " ++ window.stream.text ++ " [" ++ frame ++ "]"

/-- A window block may hold triples and plain groups; anything else is a loss. -/
def checkBlock (strict : Bool) (name : Term) (block : Pattern) : Projecting Unit :=
  block.keywords.forM fun keyword =>
    lose strict (.construct .cqelsQl (keyword ++ " inside a stream block"))
      (s!"{keyword} inside the stream block of {name.text} is not supported in CQELS-QL " ++
        "and is written as is")

/-- A window that no block ranges over is a loss. -/
def checkUse (strict : Bool) (used : List Term) (id : Term) : Projecting Unit :=
  if used.contains id then pure ()
  else
    lose strict (.construct .cqelsQl s!"window {id.text} without a WINDOW block")
      s!"window {id.text} is not used in a WINDOW block and is omitted"

/-- A query in CQELS-QL: every window block has the stream and the frame in its header. -/
def project (query : Query) (strict : Bool) : Projecting String := do
  let plan ← Plan.ofQuery .cqelsQl Dialect.cqelsQl.capabilities strict query
  let headers ← plan.windows.mapM fun window => do
    return (window.id, ← streamHeader strict window)
  let blocks := (query.body.pattern.map Pattern.windowBlocks).getD []
  let used := blocks.map Prod.fst
  let ids := headers.map Prod.fst
  match used.find? (!ids.contains ·) with
  | some unknown => throw (.unknownWindow unknown.text)
  | none => pure ()
  ids.forM (checkUse strict used)
  blocks.forM fun (name, block) => checkBlock strict name block
  let header (name : Term) : Option String := (headers.find? (·.1 = name)).map Prod.snd
  return Page.render (query.prologue.marks ++ query.body.marks ⟨none, [], header⟩)

end CqelsQl

namespace SparqlStream

/-- The clause of a window, with its frame relative to now. -/
def streamClause (window : Window) : Except SerializationError String := do
  let duration (field : String) (term : Term) := window.durationText .sparqlStream field term
  let slide ← match window.step with
    | some step => do pure (" SLIDE " ++ (← duration "step" step))
    | none => pure ""
  let frame ← match window.frame with
    | .logical range => do pure ("NOW-" ++ (← duration "range" range))
    | .past start stop => do
      let start ← duration "from" start
      let stop ← duration "to" stop
      pure ("NOW-" ++ start ++ " TO NOW-" ++ stop)
    | .physical _ => throw (.windowKind .sparqlStream window.kind)
  return "FROM STREAM " ++ window.stream.text ++ " [" ++ frame ++ slide ++ "]"

/-- A named graph inside a window is a loss. -/
def checkGraph (strict : Bool) (window : Term) (graph : Token) : Projecting Unit :=
  lose strict (.construct .sparqlStream "named graphs inside a stream pattern")
    (s!"GRAPH {graph.text} inside the pattern of window {window.text} is not supported in " ++
      "SPARQLStream, its triples are added to the default graph")

/-- The body of a query without the named graphs inside its windows. -/
def withoutGraphs (strict : Bool) (query : Query) : Projecting QueryBody :=
  match query.body.pattern with
  | none => pure query.body
  | some pattern => do
    let (pattern, graphs) := pattern.withoutWindowGraphs
    graphs.forM fun (window, graph) => checkGraph strict window graph
    return { query.body with pattern := some pattern }

/-- A query in SPARQLStream: one clause for each stream, and windows without named graphs. -/
def project (query : Query) (strict : Bool) : Projecting String := do
  let plan ← Plan.ofQuery .sparqlStream Dialect.sparqlStream.capabilities strict query
  let clauses ← liftM (plan.windows.mapM streamClause)
  let body ← withoutGraphs strict query
  return Page.render (query.prologue.marks ++
    body.marks ⟨plan.operator.keyword?, clauses, fun _ => none⟩)

end SparqlStream

namespace Query

/-- Writes a query in a dialect. What the dialect cannot express is an error in strict mode, and
otherwise degraded with a warning. -/
def project (query : Query) (dialect : Dialect) (strict : Bool) :
    Except SerializationError Projection :=
  match dialect with
  | .rspQl => .ok ⟨query.nativeText, []⟩
  | .cqelsQl => (CqelsQl.project query strict).outcome
  | .cSparql => (CSparql.project query strict).outcome
  | .sparqlStream => (SparqlStream.project query strict).outcome

end Query

end StreamQuery
