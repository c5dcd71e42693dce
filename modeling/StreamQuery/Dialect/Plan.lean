import StreamQuery.Window.Combine

/-!
# Plans

What of a query a restrictive dialect will say. A strict projection fails where something would be
lost; a lenient one goes on and keeps a warning.
-/

namespace StreamQuery

/-- What a projection has come to: a failure, or a value and the warnings so far. -/
abbrev Projecting := StateT (List String) (Except SerializationError)

namespace Projecting

/-- Keeps a warning. -/
def warn (message : String) : Projecting Unit := modify (· ++ [message])

/-- A loss: an error if the projection is strict, a warning otherwise. -/
def lose (strict : Bool) (error : SerializationError) (message : String) : Projecting Unit :=
  if strict then throw error else warn message

end Projecting

open Projecting

/-- What a restrictive dialect will say of a query, apart from its body. -/
structure Plan where
  windows : List Window
  operator : OutputOperator
  output : Option Term

namespace Plan

/-- A window of a kind that the dialect has. A past window that ends now can stand as a logical
one, with a loss. -/
def adaptWindow (dialect : Dialect) (caps : Capabilities) (strict : Bool) (window : Window) :
    Projecting Window :=
  if caps.supportsKind window.kind then pure window
  else
    match window.asLogical? with
    | some logical =>
      if caps.supportsKind .logical && !strict then do
        warn (s!"{dialect.name} does not support {window.kind.name} windows, " ++
          s!"{window.id.text} is treated as a logical window")
        return logical
      else throw (.windowKind dialect window.kind)
    | none => throw (.windowKind dialect window.kind)

/-- The single window of a stream. -/
def mergeGroup (dialect : Dialect) (caps : Capabilities) (strict : Bool) (stream : Term)
    (group : List Window) : Projecting Window := do
  if 1 < group.length then
    let count := group.length
    lose strict (.multipleWindows dialect stream)
      (s!"{dialect.name} does not support multiple windows over {stream.text}, " ++
        s!"{count} windows are combined")
  liftM (Window.combineAll caps.minStep group)

/-- The windows of a plan, one for each stream if the dialect has only one. -/
def mergeWindows (dialect : Dialect) (caps : Capabilities) (strict : Bool)
    (windows : List Window) : Projecting (List Window) :=
  if caps.windowsPerStream = some 1 then
    (Window.groupByStream windows).mapM fun (stream, group) =>
      mergeGroup dialect caps strict stream group
  else pure (Window.sorted windows)

/-- The operator of a plan. -/
def chooseOperator (dialect : Dialect) (caps : Capabilities) (strict : Bool)
    (operator : OutputOperator) : Projecting OutputOperator :=
  if caps.supportsOperator operator then pure operator
  else do
    lose strict (.outputOperator dialect operator)
      (s!"{operator.name} is not supported in {dialect.name}, " ++
        s!"{caps.defaultOperator.name} is used instead")
    return caps.defaultOperator

/-- The output stream of a plan. -/
def chooseOutput (dialect : Dialect) (caps : Capabilities) (strict : Bool)
    (output : Option Term) : Projecting (Option Term) :=
  match output with
  | none => pure none
  | some stream =>
    if caps.namedOutput then pure (some stream)
    else do
      lose strict (.outputStreamName dialect)
        s!"REGISTER of {stream.text} is not supported in {dialect.name} and is omitted"
      return none

/-- Plans a query for a dialect that can express no more than is given. -/
def ofQuery (dialect : Dialect) (caps : Capabilities) (strict : Bool) (query : Query) :
    Projecting Plan := do
  if !caps.supportsForm query.form then throw (.queryForm dialect query.form)
  let windows ← query.windows.mapM (adaptWindow dialect caps strict)
  let windows ← mergeWindows dialect caps strict windows
  let operator ← chooseOperator dialect caps strict query.operator
  let output ← chooseOutput dialect caps strict query.output
  return ⟨windows, operator, output⟩

end Plan

namespace Window

/-- A duration in the units of a dialect; a variable stands for itself. -/
def durationText (dialect : Dialect) (window : Window) (field : String) (term : Term) :
    Except SerializationError String :=
  if term.isVariable then .ok term.text
  else
    match term.duration? with
    | none => .error (.invalidScalar window.id field "duration")
    | some (.error error) => .error (.duration error)
    | some (.ok d) =>
      match d.inUnits? dialect.capabilities.units dialect.capabilities.separator with
      | some text => .ok text
      | none => .error (.unrepresentableDuration dialect (term.slotText SortedMap.empty))

/-- A count; a variable stands for itself. -/
def countText (window : Window) (field : String) (term : Term) :
    Except SerializationError String :=
  if term.isVariable then .ok term.text
  else
    match term.count? with
    | some n => .ok (String.ofList (Text.decimal n))
    | none => .error (.invalidScalar window.id field "count")

/-- The frame of a physical window, whose step is lost. -/
def itemsFrame (dialect : Dialect) (strict : Bool) (window : Window) (items : Term) :
    Projecting String := do
  if window.step.isSome then
    lose strict (.construct dialect "STEP on physical windows")
      s!"STEP of physical window {window.id.text} is ignored"
  return "TRIPLES " ++ (← liftM (window.countText "item count" items))

end Window

/-- A query in a dialect, and what was lost or approximated on the way. -/
structure Projection where
  text : String
  warnings : List String
  deriving DecidableEq

/-- The outcome of a projection. -/
def Projecting.outcome (projecting : Projecting String) : Except SerializationError Projection :=
  (projecting.run []).map fun (text, warnings) => ⟨text, warnings⟩

end StreamQuery
