import Mathlib.Order.Defs.Unbundled
import StreamQuery.Graph.NTriples

/-! # The text of terms

A quoted lexical form is read back from its text, whatever follows it. So the text of a term tells
all terms of one kind apart, and the order of terms by kind and text is a total order.
-/

namespace StreamQuery

open Text NTriples

/-! ## Quoted lexical forms -/

namespace Literal

/-- The code points that are written with four digits. -/
def escapedCodes : List Nat := List.range 32 ++ [0x7F, 0xFFFE, 0xFFFF]

theorem readCode?_hexCode {c : Char} (h : c.toNat ∈ escapedCodes) (rest : List Char) :
    readCode? 4 (hexCode c.toNat ++ rest) = some (c, rest) := by
  have hcodes : ∀ n ∈ escapedCodes, (hexCode n).length = 4 ∧ (hexCode n).all isHexDigit ∧
      charOfCode? (hexDigitsValue (hexCode n)) = some (Char.ofNat n) := by decide +kernel
  obtain ⟨hlength, hdigits, hvalue⟩ := hcodes _ h
  have htake : (hexCode c.toNat ++ rest).take 4 = hexCode c.toNat := by
    rw [← hlength, List.take_left]
  have hdrop : (hexCode c.toNat ++ rest).drop 4 = rest := by
    rw [← hlength, List.drop_left]
  rw [readCode?, htake, hdrop]
  simp [hlength, hdigits, hvalue, Char.ofNat_toNat]

/-- What is written for one character is read as that character. -/
theorem readStringText_escapeChar (c : Char) (bound : Nat) (rest : List Char) :
    readStringText (bound + 1) (escapeChar c ++ rest) =
      (readStringText bound rest).bind fun found => some (c :: found.1, found.2) := by
  unfold escapeChar
  split
  case h_8 _ hquote hbackslash =>
    split
    · next hcode =>
      have hmem : c.toNat ∈ escapedCodes := by
        simp [escapedCodes] at hcode ⊢
        omega
      simp [readStringText, readCode?_hexCode hmem]
    · rw [List.singleton_append, readStringText, if_neg hbackslash]
      · rfl
      · exact hquote
      all_goals
        intros
        exact absurd ‹_› hbackslash
  all_goals simp [readStringText, escaped?]

/-- A lexical form is read back from between its quotes. -/
theorem readStringText_escaped (value rest : List Char) {bound : Nat} (h : value.length < bound) :
    readStringText bound (value.flatMap escapeChar ++ '"' :: rest) = some (value, rest) := by
  induction value generalizing bound with
  | nil =>
      obtain ⟨bound, rfl⟩ := Nat.exists_eq_add_one_of_ne_zero (Nat.ne_of_gt h)
      simp [readStringText]
  | cons c value ih =>
      obtain ⟨bound, rfl⟩ := Nat.exists_eq_add_one_of_ne_zero (Nat.ne_of_gt (Nat.zero_lt_of_lt h))
      rw [List.flatMap_cons, List.append_assoc, readStringText_escapeChar,
        ih (Nat.lt_of_succ_lt_succ h)]
      rfl

theorem quoted_append_inj {value value' : String} {rest rest' : List Char}
    (h : (quoted value).toList ++ rest = (quoted value').toList ++ rest') :
    value = value' ∧ rest = rest' := by
  have hread : ∀ (v : String) (bound : Nat) (r : List Char), v.toList.length < bound →
      readStringText bound (((quoted v).toList ++ r).drop 1) = some (v.toList, r) := by
    intro v bound r hbound
    rw [← readStringText_escaped v.toList r hbound]
    simp [quoted]
  -- one bound that is large enough for both
  have hleft := hread value (value.toList.length + value'.toList.length + 1) rest (by omega)
  have hright := hread value' (value.toList.length + value'.toList.length + 1) rest' (by omega)
  rw [h, hright] at hleft
  simp only [Option.some.injEq, Prod.mk.injEq, String.toList_inj] at hleft
  exact ⟨hleft.1.symm, hleft.2.symm⟩

/-- What stands behind the closing quote of a literal. -/
def suffix : Annotation → List Char
  | .plain => []
  | .datatype text _ => '^' :: '^' :: '<' :: (text.toList ++ ['>'])
  | .language tag => '@' :: tag.toList

theorem toList_text (literal : Literal) :
    literal.text.toList = (quoted literal.value).toList ++ suffix literal.annotation := by
  unfold text
  cases literal.annotation <;> simp [suffix]

theorem suffix_injective {a b : Annotation} (h : suffix a = suffix b) : a = b := by
  cases a with
  | plain => cases b <;> simp [suffix] at h ⊢
  | datatype text proper => cases b <;> simp [suffix, String.toList_inj] at h ⊢; exact h
  | language tag => cases b <;> simp [suffix, String.toList_inj] at h ⊢; exact h

/-- The text of a literal tells it apart. -/
theorem text_injective {a b : Literal} (h : a.text = b.text) : a = b := by
  have htext := congrArg String.toList h
  rw [toList_text, toList_text] at htext
  obtain ⟨hvalue, hsuffix⟩ := quoted_append_inj htext
  cases a
  cases b
  rw [Literal.mk.injEq]
  exact ⟨hvalue, suffix_injective hsuffix⟩

end Literal

/-! ## The order of terms -/

/-- A lawful comparison that calls none but equal values equal puts all values in a line. -/
theorem isLinearOrder_compare (α : Type) [Ord α] [Std.TransOrd α] [Std.LawfulEqOrd α] :
    IsLinearOrder α fun a b => (compare a b).isLE where
  refl _ := Std.ReflCmp.isLE_rfl
  trans _ _ _ := Std.TransCmp.isLE_trans
  antisymm _ _ hab hba := Std.LawfulEqOrd.eq_of_compare (Std.OrientedCmp.isLE_antisymm hab hba)
  total a b := by
    cases h : compare a b with
    | lt => exact .inl rfl
    | eq => exact .inl rfl
    | gt =>
        refine .inr ?_
        rw [Std.OrientedCmp.gt_iff_lt.mp h]
        rfl

namespace Iri

theorem bracketed_injective {a b : Iri} (h : a.bracketed = b.bracketed) : a = b := by
  apply ext_text
  simpa [bracketed, String.append_assoc] using h

end Iri

namespace Term

/-- Terms of one kind are told apart by their texts. -/
theorem eq_of_rank_of_text {a b : Term} (hrank : a.rank = b.rank) (htext : a.text = b.text) :
    a = b := by
  cases a with
  | iri i =>
      cases b with
      | iri j => exact congrArg Term.iri (Iri.bracketed_injective htext)
      | _ => cases hrank
  | literal l =>
      cases b with
      | literal m => exact congrArg Term.literal (Literal.text_injective htext)
      | _ => cases hrank
  | «variable» v =>
      cases b with
      | «variable» w =>
          obtain ⟨name, valid⟩ := v
          obtain ⟨name', valid'⟩ := w
          have hname : name = name' := by simpa [text] using htext
          cases hname
          rfl
      | _ => cases hrank

theorem compare_eq (a b : Term) :
    compare a b = (compare a.rank b.rank).then (compare a.text b.text) := rfl

instance : Std.TransOrd Term :=
  inferInstanceAs (Std.TransCmp (compareLex (compareOn rank) (compareOn text)))

instance : Std.LawfulEqOrd Term where
  eq_of_compare {a b} h := by
    rw [compare_eq, Ordering.then_eq_eq] at h
    apply eq_of_rank_of_text
    · exact Std.LawfulEqOrd.eq_of_compare h.1
    · exact Std.LawfulEqOrd.eq_of_compare h.2

end Term

end StreamQuery
