import StreamQuery.Pattern

/-!
# Named graphs inside windows

Removes the wrapper of a named graph inside window blocks and puts its triples in its place, for
dialects whose windows have no named graphs.
-/

namespace StreamQuery

namespace Pattern

/-- The members of one group in reverse order, followed by those of another. -/
def reverseOnto : Pattern → Pattern → Pattern
  | nil, done => done
  | run tokens rest, done => rest.reverseOnto (run tokens done)
  | group inner rest, done => rest.reverseOnto (group inner done)
  | window name inner rest, done => rest.reverseOnto (window name inner done)

/-- Splits the keyword `GRAPH` and the token behind it off the end of a run. -/
def splitGraphHeader? (tokens : List Token) : Option (List Token × Token) :=
  match tokens.reverse with
  | graph :: keyword :: before =>
    if keyword.isWord "GRAPH" then some (before.reverse, graph) else none
  | _ => none

/-- Takes the header of a graph off the member written last, which comes first in `done`. -/
def takeGraphHeader? : Pattern → Option (Token × Pattern)
  | run tokens done =>
    (splitGraphHeader? tokens).map fun (before, graph) =>
      (graph, if before.isEmpty then done else run before done)
  | _ => none

/-- Ends the member written last with a dot, if it is a run that does not end so. -/
def terminate : Pattern → Pattern
  | run tokens done =>
    match tokens.getLast? with
    | some last => if last.isPunct "." then run tokens done else run (tokens ++ [.punct "."]) done
    | none => run tokens done
  | done => done

/-- Strips the members of a group inside a window, if there is one, behind members that are done
already and stand in reverse order. Answers all members and the removed graphs, each with its
window. -/
def stripGraphsOnto (inside : Option Term) (done : Pattern) :
    Pattern → Pattern × List (Term × Token)
  | nil => (done.reverseOnto nil, [])
  | run tokens rest => stripGraphsOnto inside (run tokens done) rest
  | group inner rest =>
    let (inner, innerRemoved) := stripGraphsOnto inside nil inner
    match inside, takeGraphHeader? done with
    | some enclosing, some (graph, done) =>
      let (all, removed) :=
        stripGraphsOnto inside (terminate (inner.reverseOnto (terminate done))) rest
      (all, innerRemoved ++ (enclosing, graph) :: removed)
    | _, _ =>
      let (all, removed) := stripGraphsOnto inside (group inner done) rest
      (all, innerRemoved ++ removed)
  | window name inner rest =>
    let (inner, innerRemoved) := stripGraphsOnto (some name) nil inner
    let (all, removed) := stripGraphsOnto inside (window name inner done) rest
    (all, innerRemoved ++ removed)

/-- A pattern without graphs inside its windows, and the graphs that were removed. -/
def withoutWindowGraphs (pattern : Pattern) : Pattern × List (Term × Token) :=
  stripGraphsOnto none nil pattern

end Pattern

end StreamQuery
