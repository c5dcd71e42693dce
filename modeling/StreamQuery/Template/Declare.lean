import StreamQuery.Template

/-!
# Declarations in place

A template that is held somewhere gets its arguments one by one. A declaration that fails is reported to
the caller, who goes on with the template as it is then.
-/

namespace StreamQuery

/-- A step with a template that may fail. -/
abbrev Declaring := ExceptT TemplateError (StateM Template)

/-- Declares an argument; its type and its default may use the prefixes of the query or others. -/
def Declaring.declare (declaration : Declaration) (others : PrefixMapping) : Declaring Unit := do
  let template ← get
  let name := Template.withoutSigils declaration.name
  liftM (template.checkName name)
  let prefixes := template.prefixes others
  let type ← liftM (Template.declaredType prefixes declaration.type)
  let default ← liftM (Template.declaredDefault name type prefixes declaration.default)
  let argument : Argument :=
    ⟨name, type, declaration.optional, default, declaration.label, declaration.comment⟩
  modify fun template => { template with arguments := template.arguments ++ [argument] }
  modify fun template => { template with arguments := Template.sortArguments template.arguments }

namespace Template

/-- What comes of a declaration, and what becomes of the template. -/
def receive (template : Template) (declaration : Declaration) (others : PrefixMapping) :
    Except TemplateError Unit × Template :=
  (Declaring.declare declaration others).run.run template

/-- A template after declarations with prefixes of their own, whatever came of each. -/
def after (template : Template) (declarations : List (Declaration × PrefixMapping)) : Template :=
  declarations.foldl (fun template declaration => (template.receive declaration.1 declaration.2).2)
    template

end Template

end StreamQuery
