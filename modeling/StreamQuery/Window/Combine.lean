import StreamQuery.Dialect

/-!
# Combining windows

Several windows over one stream become the single window that a restrictive dialect can express.
It covers them all: where they differ, the larger range and the smaller step are kept.
-/

namespace StreamQuery

/-- Durations are in the order of their lengths. -/
instance : Ord Duration where
  compare a b := (compare a.seconds b.seconds).then (compare a.nanos b.nanos)

/-- Which of two values covers the other. -/
inductive Widening where
  | larger
  | smaller
  deriving DecidableEq, Repr

/-- What the slots of a window measure. -/
inductive Scalar where
  | duration
  | count
  deriving DecidableEq, Repr

namespace Scalar

/-- The duration in a slot of the windows over a stream. -/
def readDuration (stream : Term) (field : String) (term : Term) :
    Except SerializationError Duration :=
  match term.duration? with
  | some (.ok d) => .ok d
  | some (.error error) => .error (.duration error)
  | none => .error (.invalidScalar stream field "duration")

/-- The count in a slot of the windows over a stream. -/
def readCount (stream : Term) (field : String) (term : Term) : Except SerializationError Nat :=
  match term.count? with
  | some n => .ok n
  | none => .error (.invalidScalar stream field "count")

/-- How two values in a slot compare. -/
def compareTerms (scalar : Scalar) (stream : Term) (field : String) (a b : Term) :
    Except SerializationError Ordering :=
  match scalar with
  | duration => do
    return compare (← readDuration stream field a) (← readDuration stream field b)
  | count => do return compare (← readCount stream field a) (← readCount stream field b)

/-- The value that covers two values in a slot; of equal ones, the first. A variable can only be
combined with itself. -/
def widen (scalar : Scalar) (widening : Widening) (stream : Term) (field : String) (a b : Term) :
    Except SerializationError Term :=
  if a = b then .ok a
  else if a.isVariable || b.isVariable then .error (.acrossVariables stream field)
  else do
    let ordering ← scalar.compareTerms stream field a b
    return match widening with
      | .larger => if ordering = .lt then b else a
      | .smaller => if ordering = .gt then b else a

/-- The smallest step: one item, or the given duration. -/
def smallestStep (scalar : Scalar) (minStep : Duration) : Term :=
  match scalar with
  | duration => Term.ofDuration minStep
  | count => Term.ofCount 1

/-- The step that covers two steps. Where only one window has a step, the other one has the
smallest. -/
def widenStep (scalar : Scalar) (minStep : Duration) (stream : Term) (a b : Option Term) :
    Except SerializationError (Option Term) :=
  match a, b with
  | none, none => .ok none
  | some a, some b => some <$> scalar.widen .smaller stream "step" a b
  | some a, none | none, some a =>
    some <$> scalar.widen .smaller stream "step" a (scalar.smallestStep minStep)

end Scalar

namespace Window

/-- What the slots of a frame measure. -/
def scalarOfKind : WindowKind → Scalar
  | .physical => .count
  | _ => .duration

/-- The frame that covers two frames of one kind. -/
def combineFrames (stream : Term) (a b : Frame) : Except SerializationError Frame :=
  match a, b with
  | .logical r, .logical s =>
    Frame.logical <$> Scalar.duration.widen .larger stream "range" r s
  | .physical m, .physical n =>
    Frame.physical <$> Scalar.count.widen .larger stream "item count" m n
  | .past start stop, .past start' stop' => do
    let start ← Scalar.duration.widen .larger stream "from" start start'
    let stop ← Scalar.duration.widen .smaller stream "to" stop stop'
    return .past start stop
  | a, b => .error (.incompatibleKinds stream a.kind b.kind)

/-- The window that covers two windows; it keeps the names of the first. -/
def combine (minStep : Duration) (a b : Window) : Except SerializationError Window := do
  let frame ← combineFrames a.stream a.frame b.frame
  let step ← (scalarOfKind a.kind).widenStep minStep a.stream a.step b.step
  return ⟨a.id, a.stream, frame, step⟩

/-- The window that covers all windows of a list. -/
def combineAll (minStep : Duration) : List Window → Except SerializationError Window
  | [] => .error (.unknownWindow "empty window group")
  | first :: rest => rest.foldlM (combine minStep) first

/-- Adds a window to the group of its stream, or to a new group at the end. -/
def addToGroups (window : Window) : List (Term × List Window) → List (Term × List Window)
  | [] => [(window.stream, [window])]
  | (stream, group) :: groups =>
    if stream = window.stream then (stream, group ++ [window]) :: groups
    else (stream, group) :: addToGroups window groups

/-- The windows of each stream. Windows are sorted first, so that neither the groups nor their
members depend on the order of the list. -/
def groupByStream (windows : List Window) : List (Term × List Window) :=
  (sorted windows).foldl (fun groups window => addToGroups window groups) []

/-- A past window that ends now, as the logical window of the same range. -/
def asLogical? (window : Window) : Option Window :=
  match window.frame with
  | .past start stop =>
    match stop.duration? with
    | some (.ok d) =>
      if d.seconds = 0 ∧ d.nanos = 0 then some { window with frame := .logical start } else none
    | _ => none
  | _ => none

end Window

end StreamQuery
