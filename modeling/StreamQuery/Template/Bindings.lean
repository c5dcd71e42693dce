import StreamQuery.Template

/-!
# Bindings

The values of a template's arguments: how they come from raw parameters, and whether they are what
the template asks for.
-/

namespace StreamQuery

/-- The values of arguments by name. -/
abbrev Bindings := SortedMap Term

/-- How raw parameters are read and values are judged. -/
structure ArgumentChecker where
  prefixes : PrefixMapping
  /-- Whether parameters without an argument are worth a warning. -/
  strict : Bool
  /-- What is known about resources and classes. -/
  ontology : Option Graph

/-- What came of raw parameters. -/
structure BindingOutcome where
  bindings : Bindings
  errors : List BindingError
  warnings : List BindingError

namespace BindingOutcome

/-- The outcome without parameters. -/
def empty : BindingOutcome := ⟨SortedMap.empty, [], []⟩

/-- Whether all values could be read. -/
def isClean (outcome : BindingOutcome) : Bool := outcome.errors.isEmpty

end BindingOutcome

namespace ArgumentChecker

/-- Reads parameters with some prefixes and nothing else. -/
def ofPrefixes (prefixes : PrefixMapping) : ArgumentChecker := ⟨prefixes, false, none⟩

/-- Reads parameters with the standard prefixes. -/
def standard : ArgumentChecker := ofPrefixes PrefixMapping.standard

/-- Takes one parameter into account; a later value of an argument replaces an earlier one. -/
def bindParameter (checker : ArgumentChecker) (template : Template) (outcome : BindingOutcome)
    (parameter : String × String) : BindingOutcome :=
  let name := Template.withoutSigils parameter.1
  match template.argument? name with
  | none =>
    if checker.strict then
      { outcome with warnings := outcome.warnings ++ [.undeclaredParameter parameter.1] }
    else outcome
  | some argument =>
    match readValue name parameter.2 argument.type (template.prefixes checker.prefixes) with
    | .ok term => { outcome with bindings := outcome.bindings.insert name term }
    | .error error => { outcome with errors := outcome.errors ++ [error] }

/-- Gives an argument without a value its default. -/
def bindDefault (bindings : Bindings) (argument : Argument) : Bindings :=
  match argument.default with
  | some term => if bindings.contains argument.name then bindings
                 else bindings.insert argument.name term
  | none => bindings

/-- Reads raw parameters. -/
def createBindings (checker : ArgumentChecker) (template : Template)
    (parameters : List (String × String)) : BindingOutcome :=
  let outcome := parameters.foldl (checker.bindParameter template) .empty
  { outcome with bindings := template.arguments.foldl bindDefault outcome.bindings }

/-- Whether a resource belongs to a class. Without an ontology it belongs to itself alone. -/
def isA (checker : ArgumentChecker) (value top : String) : Bool :=
  match checker.ontology with
  | none => value == top
  | some ontology => (Oracle.isA ontology value top).toOption.getD false

/-- Whether a value is of a type; a variable is of any type. -/
def satisfies (checker : ArgumentChecker) (value : Term) (type : Iri) : Bool :=
  match value with
  | .iri i => type == Vocabulary.rdfsResource || checker.isA i.text type.text
  | .literal l =>
    let datatype := match l.annotation with
      | .language _ => Vocabulary.xsdString.text
      | _ => l.datatype
    type == Vocabulary.rdfsLiteral || type.text == datatype
  | .variable _ => true

/-- What is wrong with the value of an argument. -/
def validateArgument (checker : ArgumentChecker) (bindings : Bindings) (argument : Argument) :
    Option ValidationError :=
  match bindings.get? argument.name with
  | none => if argument.optional then none else some (.missingArgument argument.name)
  | some value =>
    match argument.type with
    | none => none
    | some type =>
      if checker.satisfies value type then none
      else some (.typeMismatch argument.name value.text type.text)

/-- What is wrong with bindings, in the order of the arguments. -/
def validate (checker : ArgumentChecker) (template : Template) (bindings : Bindings) :
    List ValidationError :=
  template.arguments.filterMap (checker.validateArgument bindings)

end ArgumentChecker

end StreamQuery
