import Mathlib.Logic.Relation
import StreamQuery.Sparql.Recognizer

/-! # What recognizers take

`Takes` says that a recognizer can answer with a value and leave the rest of a text, whatever its notes
are. There is one lemma for each way of putting recognizers together; it says what the parts have taken
if the whole has.
-/

namespace StreamQuery.Sparql

open Text

namespace Recognizer

/-- A recognizer that, with some notes, answers with a value and leaves the rest of a text. -/
def Takes {α : Type} (r : Recognizer α) (cs : List Char) (value : α) (rest : List Char) : Prop :=
  ∃ notes notes', (r.run cs).run.run notes = (some (value, rest), notes')

/-- A recognizer that is used again and again on what it leaves. -/
def TakesMany {α : Type} (r : Recognizer α) : List Char → List Char → Prop :=
  Relation.ReflTransGen fun cs rest => ∃ value, Takes r cs value rest

section

variable {α β : Type} {r r' : Recognizer α} {cs rest : List Char} {value : α}

theorem Takes.of_pure {expected : α} (h : Takes (pure expected) cs value rest) :
    value = expected ∧ rest = cs := by
  obtain ⟨notes, notes', h⟩ := h
  cases h
  exact ⟨rfl, rfl⟩

theorem not_takes_failure : ¬ Takes (failure : Recognizer α) cs value rest := by
  rintro ⟨notes, notes', h⟩
  cases h

theorem Takes.of_bind {f : α → Recognizer β} {last : β} (h : Takes (r >>= f) cs last rest) :
    ∃ value between, Takes r cs value between ∧ Takes (f value) between last rest := by
  obtain ⟨notes, notes', h⟩ := h
  rw [StateT.run_bind, OptionT.run_bind, Option.elimM, StateT.run_bind] at h
  rcases hfirst : (r.run cs).run.run notes with ⟨found, notes''⟩
  rw [hfirst] at h
  cases found with
  | none => cases h
  | some taken =>
      obtain ⟨value, between⟩ := taken
      exact ⟨value, between, ⟨notes, notes'', hfirst⟩, notes'', notes', h⟩

/-- Nothing is taken twice if the first alternative fails. -/
theorem Takes.of_orElse (h : Takes (r <|> r') cs value rest) :
    Takes r cs value rest ∨ Takes r' cs value rest := by
  obtain ⟨notes, notes', h⟩ := h
  change ((r.run cs <|> r'.run cs).run).run notes = _ at h
  rw [OptionT.run_orElse, Option.elimM, StateT.run_bind] at h
  rcases hfirst : (r.run cs).run.run notes with ⟨found, notes''⟩
  rw [hfirst] at h
  cases found with
  | none => exact .inr ⟨notes'', notes', h⟩
  | some taken => 
      cases h
      exact .inl ⟨notes, notes'', hfirst⟩

theorem Takes.of_discard {last : Unit} (h : Takes (discard r) cs last rest) :
    ∃ value, Takes r cs value rest := by
  rw [Functor.discard, LawfulFunctor.map_const, Function.comp_apply, map_eq_pure_bind] at h
  obtain ⟨value, between, hfirst, hlast⟩ := h.of_bind
  obtain ⟨-, rfl⟩ := hlast.of_pure
  exact ⟨value, hfirst⟩

theorem Takes.of_known {found : Option α} (h : Takes (known found) cs value rest) :
    found = some value ∧ rest = cs := by
  cases found with
  | none => exact absurd h not_takes_failure
  | some expected =>
      obtain ⟨rfl, rfl⟩ := h.of_pure
      exact ⟨rfl, rfl⟩

theorem Takes.of_take {f : List Char → Option (α × List Char)} (h : Takes (take f) cs value rest) :
    f cs = some (value, rest) := by
  unfold take at h
  obtain ⟨all, between, ⟨_, _, hget⟩, hread⟩ := h.of_bind
  cases hget
  obtain ⟨⟨found, left⟩, between, hknown, hset⟩ := hread.of_bind
  obtain ⟨hfound, rfl⟩ := hknown.of_known
  obtain ⟨_, _, heq⟩ := hset
  cases heq
  exact hfound

theorem Takes.of_maybe {found : Option α} (h : Takes (maybe r) cs found rest) :
    (∃ value, found = some value ∧ Takes r cs value rest) ∨ found = none ∧ rest = cs := by
  rcases Takes.of_orElse h with h | h
  · obtain ⟨value, between, hfirst, hlast⟩ := h.of_bind
    obtain ⟨rfl, rfl⟩ := hlast.of_pure
    exact .inl ⟨value, rfl, hfirst⟩
  · exact .inr h.of_pure

theorem Takes.of_manyUpTo {bound : Nat} {values : List α}
    (h : Takes (manyUpTo r bound) cs values rest) : TakesMany r cs rest := by
  induction bound generalizing cs values with
  | zero =>
      obtain ⟨-, rfl⟩ := h.of_pure
      exact .refl
  | succ bound ih =>
      rw [manyUpTo] at h
      obtain ⟨found, between, hmaybe, hmore⟩ := h.of_bind
      rcases hmaybe.of_maybe with ⟨value, rfl, hvalue⟩ | ⟨rfl, rfl⟩
      · obtain ⟨others, behind, hothers, hlast⟩ := Takes.of_bind hmore
        obtain ⟨-, rfl⟩ := hlast.of_pure
        exact .head ⟨value, hvalue⟩ (ih hothers)
      · obtain ⟨-, rfl⟩ := hmore.of_pure
        exact .refl

theorem Takes.of_many {values : List α} (h : Takes (many r) cs values rest) :
    TakesMany r cs rest := by
  unfold many at h
  obtain ⟨all, between, ⟨_, _, hget⟩, hmany⟩ := h.of_bind
  cases hget
  exact hmany.of_manyUpTo

end

variable {cs rest : List Char} {text : String} {value : Unit}

theorem Takes.of_spaces (h : Takes spaces cs value rest) : rest = skipSpace false cs := by
  obtain ⟨_, _, heq⟩ := h
  cases heq
  rfl

theorem Takes.of_exactly (h : Takes (exactly text) cs value rest) :
    after? text.toList cs = some rest := by
  obtain ⟨_, hfound, heq⟩ := Option.map_eq_some_iff.mp h.of_take
  cases heq
  exact hfound

theorem Takes.of_sign (h : Takes (sign text) cs value rest) :
    ∃ behind, after? text.toList cs = some behind ∧ rest = skipSpace false behind := by
  obtain ⟨_, behind, hexactly, hspaces⟩ := h.of_bind
  exact ⟨behind, hexactly.of_exactly, hspaces.of_spaces⟩

theorem Takes.of_word (h : Takes (word text) cs value rest) :
    ∃ behind, afterWord? text.toList cs = some behind ∧ rest = skipSpace false behind := by
  obtain ⟨_, behind, hword, hspaces⟩ := h.of_bind
  obtain ⟨_, hfound, heq⟩ := Option.map_eq_some_iff.mp hword.of_take
  cases heq
  exact ⟨_, hfound, hspaces.of_spaces⟩

end Recognizer

end StreamQuery.Sparql
