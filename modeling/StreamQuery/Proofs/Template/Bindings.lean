import StreamQuery.Proofs.Codec.Mentions
import StreamQuery.Proofs.Template.Document
import StreamQuery.Proofs.Token.Value
import StreamQuery.Template.Bindings

/-! # Bindings of declared arguments

Only declared arguments get values: one that is read from a parameter, or the default. Such a value is
an IRI or a literal that can be read again, and its argument is no variable that the query answers with.
-/

namespace StreamQuery

theorem Template.Free.not_mem_projectedVariables {body : Query} {name : String}
    (h : Template.Free body name) : name ∉ body.body.projectedVariables := by
  intro hmem
  obtain ⟨_, -, hprojected⟩ := bind_eq_ok_iff.mp h.2
  have hlisted := (body.isProjected_iff Encoding.numbered_injective).mpr hmem
  cases hlisted.symm.trans (Except.ok.inj hprojected)

namespace Argument

variable {name raw : String} {type : Option Iri} {prefixes : PrefixMapping} {term : Term}

/-- What is read is no variable. -/
theorem isVariable_of_readValue (h : readValue name raw type prefixes = .ok term) :
    term.isVariable = false := by
  rcases readValue_cases h with ⟨⟨found, rfl⟩, -⟩ | ⟨l, rfl, -⟩
  · rfl
  · rfl

/-- What is read can be read again. -/
theorem legal_of_readValue (h : readValue name raw type prefixes = .ok term) : term.Legal := by
  have hresource : readResource name raw prefixes = .ok term → term.Legal := by
    intro hread
    obtain ⟨value, rfl⟩ := exists_iri_of_readResource hread
    trivial
  unfold readValue at h
  cases type with
  | none =>
      dsimp only at h
      split at h
      · next hread => exact hresource (hread.trans h)
      · cases h
        trivial
  | some type =>
      dsimp only at h
      split at h
      · exact hresource h
      split at h
      · cases h
        trivial
      split at h
      · cases h
        unfold Literal.typed
        split
        · trivial
        · exact ⟨type, rfl⟩
      · cases h

/-- A value that an argument can have. -/
def Takes (argument : Argument) (value : Term) : Prop :=
  ∃ raw prefixes, readValue argument.name raw argument.type prefixes = .ok value

end Argument

namespace Bindings

/-- Bindings to terms that can be read again. -/
def Legal (bindings : Bindings) : Prop := ∀ name value, bindings.get? name = some value → value.Legal

/-- Bindings to IRIs and literals. -/
def Ground (bindings : Bindings) : Prop :=
  ∀ name value, bindings.get? name = some value → value.isVariable = false

/-- Bindings of some arguments to values that they can have. -/
def ValuesOf (arguments : List Argument) (bindings : Bindings) : Prop :=
  ∀ name value, bindings.get? name = some value →
    ∃ argument ∈ arguments, argument.name = name ∧ argument.Takes value

variable {arguments : List Argument} {bindings : Bindings}

theorem ValuesOf.empty (arguments : List Argument) : ValuesOf arguments SortedMap.empty := by
  rintro name value ⟨⟩

theorem ValuesOf.insert (h : bindings.ValuesOf arguments) {argument : Argument}
    (hargument : argument ∈ arguments) {value : Term} (hvalue : argument.Takes value) :
    ValuesOf arguments (bindings.insert argument.name value) := by
  intro name found hfound
  rcases SortedMap.get?_insert_eq_some_iff.mp hfound with ⟨rfl, rfl⟩ | ⟨hfound, -⟩
  · exact ⟨argument, hargument, rfl, hvalue⟩
  · exact h name found hfound

theorem ValuesOf.legal (h : bindings.ValuesOf arguments) : bindings.Legal := by
  intro name value hvalue
  obtain ⟨argument, -, -, raw, prefixes, hread⟩ := h name value hvalue
  exact Argument.legal_of_readValue hread

theorem ValuesOf.ground (h : bindings.ValuesOf arguments) : bindings.Ground := by
  intro name value hvalue
  obtain ⟨argument, -, -, raw, prefixes, hread⟩ := h name value hvalue
  exact Argument.isVariable_of_readValue hread

end Bindings

namespace ArgumentChecker

variable {checker : ArgumentChecker} {template : Template}

theorem valuesOf_bindParameter {outcome : BindingOutcome}
    (h : outcome.bindings.ValuesOf template.arguments) (parameter : String × String) :
    (checker.bindParameter template outcome parameter).bindings.ValuesOf template.arguments := by
  unfold bindParameter
  dsimp only
  split
  · split
    · exact h
    · exact h
  · next argument hargument =>
    have hname : argument.name = Template.withoutSigils parameter.1 := by
      simpa using List.find?_some hargument
    split
    · next term hterm =>
      rw [← hname] at hterm ⊢
      exact h.insert (List.mem_of_find?_eq_some hargument) ⟨_, _, hterm⟩
    · exact h

theorem valuesOf_bindDefault {bindings : Bindings} (h : bindings.ValuesOf template.arguments)
    {argument : Argument} (hargument : argument ∈ template.arguments)
    (hdefault : ∀ value, argument.default = some value → argument.Takes value) :
    (bindDefault bindings argument).ValuesOf template.arguments := by
  unfold bindDefault
  split
  · next value hvalue =>
    split
    · exact h
    · exact h.insert hargument (hdefault value hvalue)
  · exact h

/-- Whatever the parameters are, only declared arguments get values, and only values they can have. -/
theorem valuesOf_createBindings (hbuilt : template.Built) (checker : ArgumentChecker)
    (parameters : List (String × String)) :
    (checker.createBindings template parameters).bindings.ValuesOf template.arguments := by
  have hdefault : ∀ argument ∈ template.arguments, ∀ value, argument.default = some value →
      argument.Takes value := by
    intro argument hargument value hvalue
    obtain ⟨⟨declaration, others, hwritten⟩, -⟩ := hbuilt.written_and_free argument hargument
    have hread := hwritten.default
    rw [hvalue, Argument.declaredDefault_eq_ok_some_iff] at hread
    obtain ⟨raw, -, hread⟩ := hread
    exact ⟨raw, _, hread⟩
  have hparameters : (parameters.foldl (checker.bindParameter template) .empty).bindings.ValuesOf
      template.arguments :=
    List.foldlRecOn parameters (checker.bindParameter template)
      (motive := fun outcome => outcome.bindings.ValuesOf template.arguments) (.empty _)
      fun outcome h parameter _ => valuesOf_bindParameter h parameter
  exact List.foldlRecOn template.arguments bindDefault
    (motive := fun bindings => Bindings.ValuesOf template.arguments bindings) hparameters
    fun bindings h argument hargument => valuesOf_bindDefault h hargument (hdefault argument hargument)

end ArgumentChecker

end StreamQuery
