import StreamQuery.Query

/-!
# Dialects

The languages that a query can be written in, and what each of them can express.
-/

namespace StreamQuery

/-- A language for continuous queries. -/
inductive Dialect where
  | rspQl
  | cqelsQl
  | cSparql
  | sparqlStream
  deriving DecidableEq, Repr

namespace Dialect

/-- All dialects. -/
def all : List Dialect := [rspQl, cqelsQl, cSparql, sparqlStream]

/-- The name of a dialect. -/
def name : Dialect → String
  | rspQl => "RSP-QL"
  | cqelsQl => "CQELS-QL"
  | cSparql => "C-SPARQL"
  | sparqlStream => "SPARQLStream"

/-- The dialect of a name; case, hyphens and underscores do not count. -/
def ofName? (name : String) : Option Dialect :=
  let letters := (name.toList.map Char.toLower).filter fun c => c != '-' && c != '_'
  match String.ofList letters with
  | "rspql" | "native" => some rspQl
  | "cqels" | "cqelsql" => some cqelsQl
  | "csparql" => some cSparql
  | "sparqlstream" | "morph" | "morphstream" => some sparqlStream
  | _ => none

end Dialect

/-- What a dialect can express. -/
structure Capabilities where
  /-- How many windows can share a stream, if there is a limit. -/
  windowsPerStream : Option Nat
  kinds : List WindowKind
  /-- The operators that can be named; to name none is always possible. -/
  operators : List OutputOperator
  /-- The operator in place of one that cannot be named. -/
  defaultOperator : OutputOperator
  /-- Whether the output stream can be named. -/
  namedOutput : Bool
  asks : Bool
  describes : Bool
  /-- The smallest step. -/
  minStep : Duration
  /-- The units of time, in ascending order. -/
  units : List TimeUnit
  /-- What stands between an amount and its unit. -/
  separator : String
  deriving DecidableEq

namespace Capabilities

/-- Whether windows of a kind can be declared. -/
def supportsKind (caps : Capabilities) (kind : WindowKind) : Bool := caps.kinds.contains kind

/-- Whether a query can have an operator. -/
def supportsOperator (caps : Capabilities) (operator : OutputOperator) : Bool :=
  operator == .unspecified || caps.operators.contains operator

/-- Whether queries of a form can be written. -/
def supportsForm (caps : Capabilities) : QueryForm → Bool
  | .select | .construct => true
  | .ask => caps.asks
  | .describe => caps.describes

end Capabilities

/-- The shortest duration that is not zero. -/
def Duration.nanosecond : Duration := ⟨0, 1, by decide, by decide⟩

/-- One thousandth of a second. -/
def Duration.millisecond : Duration := ⟨0, 1000000, by decide, by decide⟩

namespace Dialect

/-- The units that have the short symbols `ms` to `d`. -/
def shortUnits : List TimeUnit :=
  [⟨1000000, "ms"⟩, ⟨nanosPerSecond, "s"⟩, ⟨60 * nanosPerSecond, "m"⟩,
    ⟨3600 * nanosPerSecond, "h"⟩, ⟨86400 * nanosPerSecond, "d"⟩]

/-- What each dialect can express. -/
def capabilities : Dialect → Capabilities
  | rspQl => {
    windowsPerStream := none
    kinds := WindowKind.all
    operators := OutputOperator.named
    defaultOperator := .unspecified
    namedOutput := true
    asks := true
    describes := true
    minStep := .nanosecond
    units := []
    separator := "" }
  | cqelsQl => {
    windowsPerStream := none
    kinds := [.logical, .physical]
    operators := [.istream]
    defaultOperator := .istream
    namedOutput := false
    asks := false
    describes := false
    minStep := .nanosecond
    units := ⟨1, "ns"⟩ :: shortUnits
    separator := "" }
  | cSparql => {
    windowsPerStream := some 1
    kinds := [.logical, .physical]
    operators := [.rstream]
    defaultOperator := .rstream
    namedOutput := true
    asks := false
    describes := false
    minStep := .millisecond
    units := shortUnits
    separator := "" }
  | sparqlStream => {
    windowsPerStream := some 1
    kinds := [.logical, .past]
    operators := OutputOperator.named
    defaultOperator := .rstream
    namedOutput := false
    asks := false
    describes := false
    minStep := .millisecond
    units := [⟨1000000, "MS"⟩, ⟨nanosPerSecond, "S"⟩, ⟨60 * nanosPerSecond, "MINUTE"⟩,
      ⟨3600 * nanosPerSecond, "HOUR"⟩, ⟨86400 * nanosPerSecond, "DAY"⟩,
      ⟨604800 * nanosPerSecond, "WEEK"⟩]
    separator := " " }

end Dialect

/-- Why a query cannot be written in a dialect. -/
inductive SerializationError where
  | multipleWindows (dialect : Dialect) (stream : Term)
  | incompatibleKinds (stream : Term) (first second : WindowKind)
  | acrossVariables (stream : Term) (field : String)
  | windowKind (dialect : Dialect) (kind : WindowKind)
  | outputOperator (dialect : Dialect) (operator : OutputOperator)
  | outputStreamName (dialect : Dialect)
  | queryForm (dialect : Dialect) (form : QueryForm)
  | construct (dialect : Dialect) (what : String)
  | unknownWindow (name : String)
  | unrepresentableDuration (dialect : Dialect) (value : String)
  /-- A slot holds no scalar of the expected kind. -/
  | invalidScalar (owner : Term) (field expected : String)
  | duration (error : DurationError)
  deriving DecidableEq

/-- The wording of a serialization error. -/
def SerializationError.message : SerializationError → String
  | multipleWindows dialect stream =>
    s!"{dialect.name} does not support multiple windows over stream {stream.text}"
  | incompatibleKinds stream first second =>
    s!"windows over stream {stream.text} cannot be combined: {first.name} and {second.name}"
  | acrossVariables stream field =>
    s!"unable to combine windows over stream {stream.text} across variables ({field})"
  | windowKind dialect kind => s!"{dialect.name} does not support {kind.name} windows"
  | outputOperator dialect operator =>
    s!"{dialect.name} does not support the {operator.name} output operator"
  | outputStreamName dialect =>
    s!"{dialect.name} does not support naming of the output stream"
  | queryForm dialect form => s!"{dialect.name} does not support {form.name} queries"
  | construct dialect what => s!"{dialect.name} does not support {what}"
  | unknownWindow name => s!"no window is declared for {name}"
  | unrepresentableDuration dialect value =>
    s!"{dialect.name} cannot represent duration {value}"
  | invalidScalar owner field expected => s!"{field} of window {owner.text} is not a {expected}"
  | duration error => error.message

end StreamQuery
