import StreamQuery.Proofs.Query.Body
import StreamQuery.Proofs.Query.Steady
import StreamQuery.Proofs.Template.Bindings
import StreamQuery.Template.Instantiate

/-! # Substitution

A value is put in the place of a variable as text, and the text is split again. In steady text every
value keeps to its own tokens, and every other token stays as it is.
-/

namespace StreamQuery

open Token

namespace Bindings

variable {bindings : Bindings} {split : Split}

/-- The value that stands for a token, if it is a bound variable. -/
def value? (bindings : Bindings) (token : Token) : Option Term := token.variableName?.bind bindings.get?

/-- The tokens that stand for a token. -/
def tokens (bindings : Bindings) (token : Token) : List Token :=
  match bindings.value? token with
  | some value => value.tokens
  | none => [token]

/-- The segments that stand for a segment. -/
def segments (bindings : Bindings) (segment : Segment) : List Segment :=
  match bindings.value? segment.token with
  | some value => value.segments segment.gap
  | none => [segment]

/-- Segments with values in place of variables. -/
def expand (bindings : Bindings) (split : Split) : Split :=
  (split.1.flatMap bindings.segments, split.2)

theorem value?_eq_some_iff {token : Token} {value : Term} : bindings.value? token = some value ↔
    ∃ name, token = .variable name ∧ bindings.get? name = some value := by
  unfold value? Token.variableName?
  cases token <;> simp

theorem map_token_segments (segment : Segment) :
    (bindings.segments segment).map Segment.token = bindings.tokens segment.token := by
  unfold segments tokens
  cases bindings.value? segment.token with
  | none => rfl
  | some value => exact value.map_token_segments segment.gap

theorem map_token_expand (bindings : Bindings) (split : Split) :
    (bindings.expand split).1.map Segment.token =
      (split.1.map Segment.token).flatMap bindings.tokens := by
  rw [expand, List.map_flatMap, List.flatMap_map]
  exact List.flatMap_congr fun segment _ => map_token_segments segment

theorem flatMap_text_segments (segment : Segment) :
    (bindings.segments segment).flatMap Segment.text = segment.gap ++ bindings.replacement segment := by
  obtain ⟨gap, lexeme, token⟩ := segment
  unfold segments replacement value? Token.variableName?
  cases token with
  | «variable» name =>
      dsimp only [Option.bind_some]
      cases bindings.get? name with
      | none => simp [Segment.text]
      | some value => exact value.flatMap_text_segments gap
  | _ => simp [Segment.text]

theorem text_expand (bindings : Bindings) (split : Split) : (bindings.expand split).text =
    split.1.flatMap (fun segment => segment.gap ++ bindings.replacement segment) ++ split.2 := by
  rw [expand, Split.text, List.flatMap_assoc]
  exact congrArg (· ++ split.2) (List.flatMap_congr fun segment _ => flatMap_text_segments segment)

/-- Substitution puts together the segments that stand for those of a text. -/
theorem substitute_eq_ok_iff {text result : String} : bindings.substitute text = .ok result ↔
    ∃ split, segmentsOf text.toList = .ok split ∧
      result = String.ofList (bindings.expand split).text := by
  have hsteps : bindings.substitute text = .ok result ↔ ∃ split, segmentsOf text.toList = .ok split ∧
      Except.ok (ε := ParseError) (String.ofList (split.1.flatMap (fun segment =>
        segment.gap ++ bindings.replacement segment) ++ split.2)) = .ok result := by
    simp only [substitute, Token.segments, bind_eq_ok_iff, mapError_eq_ok_iff]
    exact Iff.rfl
  rw [hsteps]
  refine exists_congr fun split => and_congr_right fun _ => ?_
  rw [text_expand, Except.ok.injEq, eq_comm]

/-! ### Steady segments -/

theorem expand_cons (segment : Segment) (split : Split) : bindings.expand (split.cons segment) =
    (bindings.segments segment ++ (bindings.expand split).1, (bindings.expand split).2) := by
  simp [expand, Split.cons]

theorem expand_behind (c : Char) (split : Split) :
    bindings.expand (split.behind c) = (bindings.expand split).behind c := by
  obtain ⟨segments, last⟩ := split
  cases segments with
  | nil => rfl
  | cons segment rest =>
      simp only [expand, Split.behind, List.flatMap_cons, Bindings.segments]
      cases bindings.value? segment.token with
      | none => rfl
      | some value =>
          obtain ⟨t, ts, htokens⟩ := List.exists_cons_of_ne_nil value.tokens_ne_nil
          simp only [Term.segments, htokens]
          rfl

/-- Values that can be read again keep segments steady, and the tokens in front do not notice them. -/
theorem steady_expand (hlegal : bindings.Legal) (h : split.Steady) :
    (bindings.expand split).Steady ∧ Resembles split.text (bindings.expand split).text := by
  induction h with
  | nil => exact ⟨.nil, .refl _⟩
  | @space split c hc _ ih =>
      rw [expand_behind, Split.text_behind, Split.text_behind]
      exact ⟨.space hc ih.1, ih.2.cons c⟩
  | @token split token hlexical hfound hvariable _ ih =>
      obtain ⟨hsteady, hresembles⟩ := ih
      rw [expand_cons, segments]
      cases hvalue : bindings.value? token with
      | none =>
          refine ⟨.token hlexical (fun other hother => hfound other (hresembles.trans hother))
            (fun name hname => hresembles.boundary (hvariable name hname)) hsteady, ?_⟩
          rw [Split.text_cons]
          simpa [Split.text, Segment.text] using hresembles.append token.text.toList
      | some value =>
          obtain ⟨name, rfl, hget⟩ := value?_eq_some_iff.mp hvalue
          have hterm := hlegal name value hget
          refine ⟨hterm.steady (hresembles.boundary (hvariable name rfl)) hsteady, ?_⟩
          have htext : Split.text (value.segments [] ++ (bindings.expand split).1, (bindings.expand split).2) =
              value.text.toList ++ (bindings.expand split).text := by
            rw [Split.text, List.flatMap_append, value.flatMap_text_segments]
            simp [Split.text]
          rw [Split.text_cons, htext]
          simpa [Segment.text, Token.text, String.toList_append] using
            hterm.resembles hlexical.name_chars hresembles

/-- A steady text is split as expected once values have been put in. -/
theorem settled_expand {text : String} (hsteady : Token.Steady text.toList)
    (hsplit : segmentsOf text.toList = .ok split) (hlegal : bindings.Legal) :
    segmentsOf (String.ofList (bindings.expand split).text).toList = .ok (bindings.expand split) := by
  rw [String.toList_ofList]
  exact (steady_expand hlegal (hsteady split hsplit)).1.settled

/-! ### Values without variables -/

/-- The values of two bindings; those of the second one win. -/
def merge (first second : Bindings) : Bindings := SortedMap.insertAll first second.entries

end Bindings

/-- The text of a term is read as its tokens. -/
theorem Term.Legal.read {value : Term} (h : value.Legal) : Token.read value.text = .ok value.tokens := by
  have hsteady := @Legal.steady value ([], []) h .nil .nil
  have htext : Split.text (value.segments [] ++ [], []) = value.text.toList := by
    rw [List.append_nil, Split.text, value.flatMap_text_segments, List.append_nil, List.nil_append]
  have hsettled : segmentsOf value.text.toList = .ok (value.segments [] ++ [], []) := by
    rw [← htext]
    exact hsteady.settled
  refine read_eq_ok_iff_segmentsOf.mpr ⟨_, hsettled, ?_⟩
  rw [List.append_nil]
  exact value.map_token_segments []

end StreamQuery
