import StreamQuery.Settings.LogFilter
import StreamQuery.Template.Library
import StreamQuery.Toml.Reader

/-!
# Settings

What a user of the library can set in a TOML document: the namespace and the strictness of
templates, further prefixes, the strictness of projections, and what is logged. All of it has a
default, and what a document says beside it does not count.
-/

namespace StreamQuery

/-- The forms in which messages are logged. -/
inductive LogFormat where
  | plain
  | json
  deriving DecidableEq, Repr

/-- The name of a form. -/
def LogFormat.name : LogFormat → String
  | plain => "plain"
  | json => "json"

/-- The form of a name. -/
def LogFormat.ofName? (name : String) : Option LogFormat :=
  [plain, json].find? (·.name = name)

/-- What is logged, and how. -/
structure Logging where
  level : String
  format : LogFormat
  /-- Levels of single modules. -/
  modules : SortedMap String

/-- What can be set. -/
structure Settings where
  /-- The namespace of short handles. -/
  space : String
  /-- Whether parameters without an argument are worth a warning. -/
  strictTemplates : Bool
  /-- Prefixes beside the standard ones. -/
  prefixes : SortedMap String
  /-- Whether a projection fails rather than leaving something out. -/
  strictProjections : Bool
  logging : Logging

/-- Why a document holds no settings. -/
inductive SettingsError where
  /-- It is no document, or a value is not of the kind that is asked for. -/
  | toml
  | invalidSpace (space : String)
  | invalidPrefix (name space : String)
  | logFilter
  deriving DecidableEq, Repr

/-- The wording of an error. -/
def SettingsError.message : SettingsError → String
  | toml => "invalid document"
  | invalidSpace space => s!"template namespace <{space}> is not an absolute IRI"
  | invalidPrefix name space => s!"prefix '{name}' maps to an invalid namespace <{space}>"
  | logFilter => "invalid log filter"

/-- The filter of a level with the levels of modules behind it. -/
def Logging.filter (logging : Logging) : String :=
  String.intercalate "," <|
    logging.level :: logging.modules.entries.map fun entry => entry.1 ++ "=" ++ entry.2

/-- Checks that the levels make up a filter. -/
def Logging.checkFilter (logging : Logging) : Except SettingsError Unit :=
  if LogFilter.isValid logging.filter then .ok () else .error .logFilter

namespace Settings

/-- The entries of a value that can be asked for by their keys. A date or a time has a single
entry, which no one asks for by its key. -/
def entries? : Toml → Option Toml.Entries
  | .table _ entries => some entries
  | .moment text => some [("$__toml_private_datetime", .string text)]
  | _ => none

/-- A member that is asked for by its key, or by its place if the members come as a list. -/
abbrev Members := String → Nat → Option Toml

/-- The members of a value. -/
def members? : Toml → Option Members
  | .array items => some fun _ place => items[place]?
  | .sections earlier last => some fun _ place =>
      ((earlier ++ [last]).map (Toml.table .header))[place]?
  | value => (entries? value).map fun entries key _ => entries.lookup key

/-- Reads a member, or answers a default if it is missing. -/
def member {α : Type} (members : Members) (key : String) (place : Nat) (default : α)
    (read : Toml → Option α) : Option α :=
  match members key place with
  | some value => read value
  | none => some default

/-- The text of a string. -/
def text? : Toml → Option String
  | .string text => some text
  | _ => none

/-- The value of a flag. -/
def flag? : Toml → Option Bool
  | .bool value => some value
  | _ => none

/-- The texts of a table. -/
def texts? (value : Toml) : Option (SortedMap String) := do
  let entries ← (← entries? value).mapM fun (key, value) => (text? value).map (key, ·)
  return SortedMap.ofList entries

/-- The log form of its name, which may also stand as the key of something empty. -/
def logFormat? : Toml → Option LogFormat
  | .string name => LogFormat.ofName? name
  | .table _ [(name, .table _ [])] | .table _ [(name, .array [])] => LogFormat.ofName? name
  | _ => none

/-- What is logged by default. -/
def standardLogging : Logging := ⟨"info", .plain, SortedMap.empty⟩

/-- The settings about logging. -/
def logging? (value : Toml) : Option Logging := do
  let members ← members? value
  return {
    level := ← member members "level" 0 standardLogging.level text?
    format := ← member members "format" 1 standardLogging.format logFormat?
    modules := ← member members "modules" 2 standardLogging.modules texts? }

/-- The settings about templates: the namespace and whether they are strict. -/
def templates? (value : Toml) : Option (String × Bool) := do
  let members ← members? value
  return (← member members "namespace" 0 TemplateLibrary.standardSpace text?,
    ← member members "strict" 1 false flag?)

/-- Whether projections are strict. -/
def projections? (value : Toml) : Option Bool := do
  member (← members? value) "strict" 0 false flag?

/-- The settings of a document. -/
def ofDocument? (entries : Toml.Entries) : Option Settings := do
  let members : Members := fun key _ => entries.lookup key
  let (space, strict) ←
    member members "templates" 0 (TemplateLibrary.standardSpace, false) templates?
  return {
    space := space
    strictTemplates := strict
    prefixes := ← member members "prefixes" 1 SortedMap.empty texts?
    strictProjections := ← member members "serialization" 2 false projections?
    logging := ← member members "logging" 3 standardLogging logging? }

/-- Checks that all namespaces are absolute IRIs. -/
def check (settings : Settings) : Except SettingsError Settings :=
  if (Iri.ofString? settings.space).isNone then .error (.invalidSpace settings.space)
  else
    match settings.prefixes.entries.find? fun entry => (Iri.ofString? entry.2).isNone with
    | some entry => .error (.invalidPrefix entry.1 entry.2)
    | none => .ok settings

/-- Reads settings from the text of a document. -/
def parse (text : String) : Except SettingsError Settings :=
  match (Toml.parse? text).bind ofDocument? with
  | some settings => settings.check
  | none => .error .toml

/-- The standard prefixes with those of the settings over them. -/
def prefixMapping (settings : Settings) : PrefixMapping :=
  PrefixMapping.standard.insertAll settings.prefixes.entries

/-- The library without templates that the settings ask for. -/
def library (settings : Settings) : TemplateLibrary :=
  .empty settings.space ⟨settings.prefixMapping, settings.strictTemplates, none⟩

end Settings

end StreamQuery
