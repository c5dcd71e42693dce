import StreamQuery.Query

/-!
# Changes of queries

A query that is held somewhere is changed in place. A change that fails is reported to the caller, who
goes on with the query as it is then.
-/

namespace StreamQuery

/-- What a query can be told. -/
inductive QueryChange where
  | addWindow (window : Window)
  | setOutputStream (stream : Term) (operator : OutputOperator)
  | setOutputOperator (operator : OutputOperator)
  deriving DecidableEq

/-- A step with a query that may fail. -/
abbrev Changing := ExceptT ConstructionError (StateM Query)

namespace Changing

/-- Declares a window; its name must be new. -/
def addWindow (window : Window) : Changing Unit := do
  let query ← get
  if (query.window? window.id).isSome then
    throw (.duplicateWindow window.id.text)
  modify fun query => { query with windows := query.windows ++ [window] }

/-- The steps of a change. -/
def steps : QueryChange → Changing Unit
  | .addWindow window => addWindow window
  | .setOutputStream stream operator => modify (·.setOutputStream stream operator)
  | .setOutputOperator operator => modify (·.setOutputOperator operator)

end Changing

namespace Query

/-- What comes of a change, and what becomes of the query. -/
def change (query : Query) (change : QueryChange) : Except ConstructionError Unit × Query :=
  (Changing.steps change).run.run query

/-- A query after changes, whatever came of each. -/
def after (query : Query) (changes : List QueryChange) : Query :=
  changes.foldl (fun query change => (query.change change).2) query

end Query

end StreamQuery
