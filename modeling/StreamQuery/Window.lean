import StreamQuery.OutputStream

/-!
# Windows

Windows over streams: which part of a stream a query sees, and how often it looks again.
-/

namespace StreamQuery

/-- The part of a stream that a window holds. -/
inductive Frame where
  /-- The last stretch of time, of the given length. -/
  | logical (range : Term)
  /-- The stretch between two points in the past, given by their distance from now. -/
  | past (start stop : Term)
  /-- The last so many items. -/
  | physical (items : Term)
  deriving DecidableEq

/-- The kinds of frame. -/
inductive WindowKind where
  | logical
  | past
  | physical
  deriving DecidableEq, Repr

namespace WindowKind

/-- All kinds of frame. -/
def all : List WindowKind := [logical, past, physical]

/-- The name of a kind. -/
def name : WindowKind → String
  | logical => "logical"
  | past => "logical past"
  | physical => "physical"

/-- The class of the windows of a kind. -/
def iri : WindowKind → Iri
  | logical => Vocabulary.logicalWindow
  | past => Vocabulary.logicalPastWindow
  | physical => Vocabulary.physicalWindow

/-- The kind of the windows of a class. -/
def ofIri? (iri : String) : Option WindowKind := all.find? (·.iri.text = iri)

end WindowKind

/-- The kind of a frame. -/
def Frame.kind : Frame → WindowKind
  | logical _ => .logical
  | past _ _ => .past
  | physical _ => .physical

/-- The terms of a frame. -/
def Frame.terms : Frame → List Term
  | logical range => [range]
  | past start stop => [start, stop]
  | physical items => [items]

/-- A window over a stream. Without a step the window slides as the query engine likes. -/
structure Window where
  id : Term
  stream : Term
  frame : Frame
  step : Option Term
  deriving DecidableEq

namespace Window

/-- The kind of a window. -/
def kind (window : Window) : WindowKind := window.frame.kind

/-- All terms of a window, its names first and its step last. -/
def terms (window : Window) : List Term :=
  window.id :: window.stream :: (window.frame.terms ++ window.step.toList)

/-- Windows are in the order of their names, of their streams, of the names of their kinds and
then of all their terms. -/
instance : Ord Window where
  compare a b :=
    (compare a.id b.id).then <| (compare a.stream b.stream).then <|
      (compare a.kind.name b.kind.name).then (compare a.terms b.terms)

/-- Windows in ascending order. -/
def sorted (windows : List Window) : List Window :=
  windows.mergeSort fun a b => (compare a b).isLE

end Window

end StreamQuery
