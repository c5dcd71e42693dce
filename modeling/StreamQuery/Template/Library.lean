import StreamQuery.Codec.Template
import StreamQuery.Template.Document

/-!
# Template libraries

Templates under their handles. A library serves one request after another. A request works on the
library entry by entry, and what it has put there stays there even if it fails afterwards.
-/

namespace StreamQuery

/-- Templates by their handles, with the namespace of short handles and the way raw parameters are
read. -/
structure TemplateLibrary where
  space : String
  checker : ArgumentChecker
  templates : SortedMap Template

/-- What came of a template of a library with raw parameters: its query, unless something keeps it
from being written, and all that is to be said about the parameters. -/
structure Instantiation where
  query : Option String
  errors : List String
  warnings : List String
  deriving DecidableEq

namespace TemplateLibrary

/-- The namespace of short handles, unless another one is asked for. -/
def standardSpace : String := "http://w3id.org/rsp/templates/"

/-- The library without templates. -/
def empty (space : String) (checker : ArgumentChecker) : TemplateLibrary :=
  ⟨space, checker, SortedMap.empty⟩

/-- The IRI that a handle stands for. -/
def resolve (library : TemplateLibrary) (handle : String) : Except ConstructionError Iri :=
  TemplateHandle.resolve handle library.space library.checker.prefixes

/-- The template of a handle. -/
def find? (library : TemplateLibrary) (handle : String) : Option Template :=
  match library.resolve handle with
  | .ok iri => library.templates.get? iri.text
  | .error _ => none

/-- The template of a handle that has to be there. -/
def find (library : TemplateLibrary) (handle : String) : Except TemplateError Template :=
  match library.find? handle with
  | some template => .ok template
  | none => .error (.unknownTemplate handle)

/-- The IRIs of all templates in ascending order. -/
def handles (library : TemplateLibrary) : List String := library.templates.keys

/-- The number of templates. -/
def size (library : TemplateLibrary) : Nat := library.templates.size

/-- Whether there are no templates. -/
def isEmpty (library : TemplateLibrary) : Bool := library.size == 0

/-- A library with a template under its handle, whatever was there. -/
def put (library : TemplateLibrary) (template : Template) : TemplateLibrary :=
  { library with templates := library.templates.insert template.handle.text template }

/-- A library without the template of a handle. -/
def remove (library : TemplateLibrary) (handle : String) : TemplateLibrary :=
  match library.resolve handle with
  | .ok iri => { library with templates := library.templates.erase iri.text }
  | .error _ => library

/-- A library without all of its templates. -/
def clear (library : TemplateLibrary) : TemplateLibrary :=
  { library with templates := SortedMap.empty }

/-- The template of a document, with the namespace and the prefixes of the library. -/
def templateOf (library : TemplateLibrary) (document : String) : Except TemplateError Template := do
  (← TemplateDocument.parse document).toTemplate library.space library.checker.prefixes

/-- The document of the template of a handle. -/
def document (library : TemplateLibrary) (handle : String) : Except TemplateError String := do
  return (TemplateDocument.ofTemplate (← library.find handle)).text

/-- The canonical graph of all templates. -/
def graph (library : TemplateLibrary) : Graph :=
  (Encoder.templates (library.templates.entries.map Prod.snd)).graphOf

/-- The query of a template of the library with raw parameters. A parameter that cannot be read is
reported and left out, and a binding that the template does not accept leaves no query. -/
def instantiate (library : TemplateLibrary) (handle : String)
    (parameters : List (String × String)) : Instantiation :=
  match library.find handle with
  | .error error => ⟨none, [error.message], []⟩
  | .ok template =>
    let outcome := library.checker.createBindings template parameters
    let errors := outcome.errors.map BindingError.message
    let warnings := outcome.warnings.map BindingError.message
    match library.checker.validate template outcome.bindings with
    | [] =>
      match template.instantiateUnchecked outcome.bindings with
      | .ok query => ⟨some query, errors, warnings⟩
      | .error error => ⟨none, errors ++ [error.message], warnings⟩
    | rejected => ⟨none, errors ++ rejected.map ValidationError.message, warnings⟩

end TemplateLibrary

/-! ## Requests -/

/-- What a library of templates can be asked for. -/
inductive LibraryRequest where
  | add (template : Template) (replace : Bool)
  | addDocument (text : String) (replace : Bool)
  | addGraph (graph : Graph) (replace : Bool)
  | remove (handle : String)
  | clear
  | find (handle : String)
  | resolve (handle : String)
  | handles
  | size
  | document (handle : String)
  | graph
  | instantiate (handle : String) (parameters : List (String × String))

/-- What a library answers to a request. -/
inductive LibraryAnswer where
  /-- The template that is registered now. -/
  | added (template : Template)
  /-- The number of templates that are registered now. -/
  | imported (count : Nat)
  | cleared
  /-- The template of a handle, or the one that was there. -/
  | template (found : Option Template)
  | handle (iri : Iri)
  | handles (texts : List String)
  | size (count : Nat)
  | document (text : String)
  | graph (graph : Graph)
  | instantiation (outcome : Instantiation)

/-- A step with a library that may fail. -/
abbrev Serving := ExceptT TemplateError (StateM TemplateLibrary)

namespace Serving

/-- What a library is asked for without a change to it. -/
def look {α : Type} (question : TemplateLibrary → Except TemplateError α) : Serving α := do
  liftM (question (← get))

/-- Puts a template under its handle. Unless it may replace another one, the handle may not be in
use. -/
def add (template : Template) (replace : Bool) : Serving LibraryAnswer := do
  let library ← get
  if !replace && library.templates.contains template.handle.text then
    throw (.alreadyRegistered template.handle.text)
  else
    modify (·.put template)
    return .added template

/-- Puts templates under their handles, one after another. Unless they may replace others, none of
their handles may be in use. -/
def addAll (templates : List Template) (replace : Bool) : Serving LibraryAnswer := do
  let library ← get
  match templates.find? fun template =>
      !replace && library.templates.contains template.handle.text with
  | some template => throw (.alreadyRegistered template.handle.text)
  | none =>
    templates.forM fun template => modify (·.put template)
    return .imported templates.length

/-- Takes away the template of a handle. -/
def remove (handle : String) : Serving LibraryAnswer := do
  let found ← look fun library => .ok (library.find? handle)
  modify (·.remove handle)
  return .template found

/-- The steps of a request. -/
def steps : LibraryRequest → Serving LibraryAnswer
  | .add template replace => add template replace
  | .addDocument text replace => do add (← look (·.templateOf text)) replace
  | .addGraph graph replace => do
    addAll (← look fun _ => graph.templates.mapError .codec) replace
  | .remove handle => remove handle
  | .clear => do
    modify TemplateLibrary.clear
    return .cleared
  | .find handle => look fun library => .ok (.template (library.find? handle))
  | .resolve handle => look fun library =>
    .handle <$> (library.resolve handle).mapError .construction
  | .handles => look fun library => .ok (.handles library.handles)
  | .size => look fun library => .ok (.size library.size)
  | .document handle => look fun library => .document <$> library.document handle
  | .graph => look fun library => .ok (.graph library.graph)
  | .instantiate handle parameters => look fun library =>
    .ok (.instantiation (library.instantiate handle parameters))

end Serving

namespace TemplateLibrary

/-- What a library answers to a request, and what becomes of it. -/
def serve (library : TemplateLibrary) (request : LibraryRequest) :
    Except TemplateError LibraryAnswer × TemplateLibrary :=
  (Serving.steps request).run.run library

/-- A library after a request that has to succeed. -/
def require (library : TemplateLibrary) (request : LibraryRequest) :
    Except TemplateError TemplateLibrary :=
  match library.serve request with
  | (.ok _, next) => .ok next
  | (.error error, _) => .error error

/-- Registers a template. -/
def register (library : TemplateLibrary) (template : Template) (replace : Bool) :
    Except TemplateError TemplateLibrary :=
  library.require (.add template replace)

/-- Registers the template of a document. -/
def registerDocument (library : TemplateLibrary) (document : String) (replace : Bool) :
    Except TemplateError TemplateLibrary :=
  library.require (.addDocument document replace)

/-- Registers all templates of a graph. -/
def registerGraph (library : TemplateLibrary) (graph : Graph) (replace : Bool) :
    Except TemplateError TemplateLibrary :=
  library.require (.addGraph graph replace)

/-- A library after requests, whatever came of each. -/
def after (library : TemplateLibrary) (requests : List LibraryRequest) : TemplateLibrary :=
  requests.foldl (fun library request => (library.serve request).2) library

end TemplateLibrary

end StreamQuery
