import StreamQuery.Proofs.Except
import StreamQuery.Proofs.Token.Split

/-! # Texts in segments

A text is put together again from its segments. It is split from left to right, and what a space or a
token in front does to the segments of the rest is said by one equation each.
-/

namespace StreamQuery

open Text Lexeme

namespace Token

variable {cs : List Char} {ts : List Token}

theorem isBlank_of_isSpace {c : Char} (h : isSpace c) : isBlank c := by
  have hall : ∀ c ∈ [' ', '\t', '\r', '\n'], isBlank c := by decide
  exact hall c (by simpa [isSpace, or_assoc] using h)

/-- White space is in no token but a literal. -/
theorem plain_of_isBlank {c : Char} (h : isBlank c) : isOpener c = false ∧ isNumberStart c = false ∧
    isQuote c = false ∧ isLabelChar c = false ∧ c ∉ ":@&\x7b\x7d()[].,;=<>!+-*/^|?".toList := by
  have hc : c.toNat ∈ [9, 10, 11, 12, 13, 32, 0x85, 0xA0, 0x1680, 0x2000, 0x2001, 0x2002, 0x2003,
      0x2004, 0x2005, 0x2006, 0x2007, 0x2008, 0x2009, 0x200A, 0x2028, 0x2029, 0x202F, 0x205F, 0x3000] := by
    simp only [isBlank, Bool.or_eq_true, Bool.and_eq_true, decide_eq_true_eq, beq_iff_eq] at h
    simp only [List.mem_cons, List.not_mem_nil, or_false]
    omega
  have hall : ∀ n ∈ [9, 10, 11, 12, 13, 32, 0x85, 0xA0, 0x1680, 0x2000, 0x2001, 0x2002, 0x2003,
      0x2004, 0x2005, 0x2006, 0x2007, 0x2008, 0x2009, 0x200A, 0x2028, 0x2029, 0x202F, 0x205F, 0x3000],
      isOpener (Char.ofNat n) = false ∧ isNumberStart (Char.ofNat n) = false ∧
      isQuote (Char.ofNat n) = false ∧ isLabelChar (Char.ofNat n) = false ∧
      Char.ofNat n ∉ ":@&\x7b\x7d()[].,;=<>!+-*/^|?".toList := by
    decide +kernel
  have hplain := hall _ hc
  rwa [Char.ofNat_toNat] at hplain

/-- No token begins with white space, of which there is more than separates tokens. -/
theorem first?_whiteSpace {c : Char} (h : isBlank c) : first? (c :: cs) = none := by
  obtain ⟨hopener, hnumber, hquote, hlabel, hmark⟩ := plain_of_isBlank h
  obtain ⟨hiri, hvariable, -, -⟩ := openers_eq_none (c :: cs) (stops_of_head? rfl hopener)
  have hbegins : BeginsWithMark (c :: cs) := .of_symbol hiri hvariable
    (numberLength?_eq_none (stops_of_head? rfl hnumber)) hquote hlabel
    (ne_of_mem_of_not_mem (by decide) hmark).symm (ne_of_mem_of_not_mem (by decide) hmark).symm
  have hcaret : after? ['^', '^'] (c :: cs) = none :=
    if_neg (ne_of_mem_of_not_mem (by decide) hmark)
  have hpunct : punctLength? (c :: cs) = none := by
    unfold punctLength?
    split <;> simp_all
  rw [hbegins.first?_eq, hcaret, hpunct]
  rfl

/-- Text of nothing but white space has no tokens, if it can be read at all. -/
theorem eq_nil_of_whiteSpace (h : ∀ c ∈ cs, isBlank c) (hread : tokens? cs = some ts) : ts = [] := by
  rw [tokens?_eq] at hread
  split at hread
  · cases hread
    rfl
  · next c rest hdrop =>
    have hc : c ∈ cs := List.mem_of_mem_drop (hdrop ▸ List.mem_cons_self)
    rw [first?_whiteSpace (h c hc)] at hread
    cases hread

end Token

/-- The segments of a text, and the spaces and comments at its end. -/
abbrev Split := List Segment × List Char

namespace Segment

/-- A segment as it stands in its text. -/
def text (segment : Segment) : List Char := segment.gap ++ segment.lexeme

end Segment

namespace Split

/-- The text of segments. -/
def text (split : Split) : List Char := split.1.flatMap Segment.text ++ split.2

/-- Segments with one more in front. -/
def cons (segment : Segment) (split : Split) : Split := (segment :: split.1, split.2)

/-- Segments with a space in front of the first one. -/
def behind (c : Char) : Split → Split
  | ([], last) => ([], c :: last)
  | (segment :: segments, last) => ({ segment with gap := c :: segment.gap } :: segments, last)

@[simp]
theorem text_cons (segment : Segment) (split : Split) :
    (split.cons segment).text = segment.text ++ split.text := by
  simp [text, cons]

@[simp]
theorem text_behind (c : Char) (split : Split) : (split.behind c).text = c :: split.text := by
  obtain ⟨segments, last⟩ := split
  cases segments <;> simp [text, behind, Segment.text]

end Split

namespace Token

variable {cs rest : List Char} {split : Split} {token : Token}

/-- A text is split at its first token, if there is one. -/
theorem segmentsOf_eq (cs : List Char) : segmentsOf cs =
    match cs.drop (gap false cs) with
    | [] => .ok ([], cs.take (gap false cs))
    | c :: rest =>
      match first? (c :: rest) with
      | some (token, n + 1) =>
        Split.cons ⟨cs.take (gap false cs), (c :: rest).take (n + 1), token⟩ <$> segmentsOf (rest.drop n)
      | _ =>
        if (openingQuote? (c :: rest)).isSome then .error (.unterminatedLiteral, c :: rest)
        else .error (.unexpectedCharacter c, c :: rest) := by
  rw [segmentsOf]
  dsimp only
  split
  · next h => rw [h]
  · next c rest h =>
    rw [h]
    dsimp only
    cases first? (c :: rest) with
    | none => rfl
    | some found =>
        obtain ⟨token, length⟩ := found
        cases length with
        | zero => rfl
        | succ n => cases segmentsOf (rest.drop n) <;> rfl

theorem segmentsOf_nil : segmentsOf [] = .ok ([], []) := by
  rw [segmentsOf_eq]
  rfl

theorem segmentsOf_space {c : Char} (h : isSpace c) (cs : List Char) :
    segmentsOf (c :: cs) = Split.behind c <$> segmentsOf cs := by
  have hgap : gap false (c :: cs) = gap false cs + 1 := by simp [gap, h]
  rw [segmentsOf_eq (c :: cs), segmentsOf_eq cs, hgap, List.drop_succ_cons, List.take_succ_cons]
  cases cs.drop (gap false cs) with
  | nil => rfl
  | cons d rest =>
      dsimp only
      split
      · cases segmentsOf (rest.drop _) <;> rfl
      · split <;> rfl

/-- A token at the beginning of a text is its first segment. -/
theorem segmentsOf_lexeme {lexeme : List Char} (h : first? (lexeme ++ rest) = some (token, lexeme.length))
    (hne : lexeme ≠ []) :
    segmentsOf (lexeme ++ rest) = Split.cons ⟨[], lexeme, token⟩ <$> segmentsOf rest := by
  obtain ⟨c, cs, rfl⟩ := List.exists_cons_of_ne_nil hne
  rw [segmentsOf_eq, gap_eq_zero_of_first? h, List.drop_zero, List.take_zero]
  rw [List.cons_append, List.length_cons] at h
  rw [List.cons_append]
  dsimp only
  rw [h]
  simp

/-- Where no token begins, nothing is split. -/
theorem segmentsOf_stuck {c : Char} (hspace : ¬ (isSpace c ∨ c = '#')) (h : first? (c :: cs) = none) :
    ∃ fault, segmentsOf (c :: cs) = .error fault := by
  rw [segmentsOf_eq, gap_eq_zero hspace, List.drop_zero]
  dsimp only
  rw [h]
  dsimp only
  split
  · exact ⟨_, rfl⟩
  · exact ⟨_, rfl⟩

theorem punctLength?_le {n : Nat} (h : punctLength? cs = some n) : n ≤ cs.length := by
  unfold punctLength? at h
  split at h
  case h_6 =>
    split at h
    · cases h
      simp
    · cases h
  case h_7 => cases h
  all_goals
    cases h
    simp

theorem le_of_take_eq {n : Nat} {piece : List Char} (h : cs.take n = piece) (hn : n = piece.length) :
    n ≤ cs.length := by
  have hlength := congrArg List.length h
  rw [List.length_take] at hlength
  omega

theorem sigil_of_variableLength? {n : Nat} (h : variableLength? cs = some n) :
    cs.head? = some '?' ∨ cs.head? = some '$' := by
  unfold variableLength? at h
  split at h
  · exact .inl rfl
  · exact .inr rfl
  · cases h

/-- A token is found where its own text stands, or a variable with its other sigil. -/
theorem lexeme_of_first? {n : Nat} (h : first? cs = some (token, n)) : n ≤ cs.length ∧
    (cs.take n = token.text.toList ∨
      ∃ name, token = .variable name ∧ cs.take n = '$' :: name.toList) := by
  have hpiece : cs.take n = (String.ofList (cs.take n)).toList := String.toList_ofList.symm
  cases found_of_first? h with
  | iri hn =>
      obtain ⟨body, -, htake, rfl⟩ := iriLength?_eq_some hn
      refine ⟨le_of_take_eq htake (by simp), .inl ?_⟩
      rw [drop_take_iri htake, htake]
      simp [Token.text, String.toList_append]
  | «variable» hn =>
      obtain ⟨sigil, name, -, -, htake, rfl⟩ := variableLength?_eq_some hn
      refine ⟨le_of_take_eq htake (by simp), ?_⟩
      have hhead : cs.head? = some sigil := by
        have := congrArg List.head? htake
        rwa [List.head?_take, if_neg (by simp)] at this
      rw [htake]
      rcases sigil_of_variableLength? hn with hsigil | hsigil
      · cases hhead.symm.trans hsigil
        exact .inl (by simp [Token.text, String.toList_append])
      · cases hhead.symm.trans hsigil
        exact .inr ⟨_, rfl, by simp⟩
  | literal hn => exact ⟨literalLength?_le hn, .inl hpiece⟩
  | language hn =>
      obtain ⟨tag, -, htake, hlength⟩ := languageLength?_eq_some hn
      exact ⟨le_of_take_eq htake (by simp [hlength]), .inl hpiece⟩
  | number hn => exact ⟨numberLength?_le hn, .inl hpiece⟩
  | blank hn =>
      obtain ⟨label, -, -, htake, hlength⟩ := blankLength?_eq_some hn
      exact ⟨le_of_take_eq htake (by simp [hlength]), .inl hpiece⟩
  | «prefixed» _ hn =>
      obtain ⟨label, part, -, htake, hlength⟩ := prefixedLength?_eq_some hn
      exact ⟨le_of_take_eq htake (by simp [hlength]; omega), .inl hpiece⟩
  | fractional hn =>
      obtain ⟨run, -, htake, hlength⟩ := fractionalDurationLength?_eq_some hn
      exact ⟨le_of_take_eq htake hlength, .inl hpiece⟩
  | word hn =>
      obtain ⟨word, -, htake, hlength⟩ := wordLength?_eq_some hn
      exact ⟨le_of_take_eq htake hlength, .inl hpiece⟩
  | datatypeMark hmark =>
      obtain ⟨rest, rfl⟩ := hmark
      exact ⟨by simp, .inl rfl⟩
  | punct hn => exact ⟨punctLength?_le hn, .inl hpiece⟩

theorem gap_le (inComment : Bool) (cs : List Char) : gap inComment cs ≤ cs.length := by
  induction cs generalizing inComment with
  | nil => exact Nat.le_refl 0
  | cons c cs ih =>
      unfold gap
      split
      · exact Nat.succ_le_succ (ih _)
      split
      · exact Nat.succ_le_succ (ih _)
      split
      · exact Nat.succ_le_succ (ih _)
      · exact Nat.zero_le _

/-- A text that is split has a first segment and a rest that is split, or it has no segments. -/
theorem segmentsOf_cases (h : segmentsOf cs = .ok split) : split = ([], cs) ∨
    ∃ space lexeme token rest, ∃ tail : Split, cs = space ++ (lexeme ++ rest) ∧
      gap false cs = space.length ∧ first? (lexeme ++ rest) = some (token, lexeme.length) ∧ lexeme ≠ [] ∧
      segmentsOf rest = .ok tail ∧ split = tail.cons ⟨space, lexeme, token⟩ := by
  have hcs := List.take_append_drop (gap false cs) cs
  rw [segmentsOf_eq] at h
  cases hdrop : cs.drop (gap false cs) with
  | nil =>
      rw [hdrop] at h hcs
      cases h
      rw [List.append_nil] at hcs
      exact .inl (by rw [hcs])
  | cons c rest =>
      rw [hdrop] at h hcs
      dsimp only at h
      split at h
      · next token n hfirst =>
        obtain ⟨tail, htail, rfl⟩ := map_eq_ok_iff.mp h
        obtain ⟨hle, -⟩ := lexeme_of_first? hfirst
        have hlexeme := List.take_append_drop (n + 1) (c :: rest)
        rw [List.drop_succ_cons] at hlexeme
        refine .inr ⟨_, (c :: rest).take (n + 1), token, rest.drop n, tail, ?_, ?_, ?_, by simp, htail, rfl⟩
        · rw [hlexeme, hcs]
        · rw [List.length_take, Nat.min_eq_left (gap_le false cs)]
        · rw [hlexeme, hfirst, List.length_take, Nat.min_eq_left hle]
      · split at h <;> cases h

end Token

namespace Segment

/-- A segment that holds a token in its own words, or a variable behind its other sigil. -/
structure Faithful (segment : Segment) : Prop where
  lexical : segment.token.Lexical
  lexeme : segment.lexeme = segment.token.text.toList ∨
    ∃ name, segment.token = .variable name ∧ segment.lexeme = '$' :: name.toList

theorem Faithful.lexeme_ne_nil {segment : Segment} (h : segment.Faithful) : segment.lexeme ≠ [] := by
  rcases h.lexeme with hlexeme | ⟨name, -, hlexeme⟩
  · rw [hlexeme]
    exact h.lexical.text_ne_nil
  · rw [hlexeme]
    exact List.cons_ne_nil _ _

end Segment

namespace Token

variable {cs : List Char} {split : Split}

theorem faithful_of_segmentsOf (h : segmentsOf cs = .ok split) : ∀ segment ∈ split.1, segment.Faithful := by
  obtain ⟨segments, last⟩ := split
  induction segments generalizing cs with
  | nil => nofun
  | cons segment segments ih =>
      rcases segmentsOf_cases h with heq | ⟨space, lexeme, token, rest, tail, -, -, hfirst, -, htail, heq⟩
      · cases heq
      cases heq
      refine List.forall_mem_cons.mpr ⟨⟨lexical_of_first? hfirst, ?_⟩, ih htail⟩
      have hlexeme := (lexeme_of_first? hfirst).2
      rwa [List.take_left] at hlexeme

/-- A text is what its segments are put together to. -/
theorem text_of_segmentsOf (h : segmentsOf cs = .ok split) : split.text = cs := by
  obtain ⟨segments, last⟩ := split
  induction segments generalizing cs with
  | nil =>
      rcases segmentsOf_cases h with heq | ⟨_, _, _, _, _, -, -, -, -, -, heq⟩
      · cases heq
        rfl
      · cases heq
  | cons segment segments ih =>
      rcases segmentsOf_cases h with heq | ⟨space, lexeme, token, rest, tail, rfl, -, -, -, htail, heq⟩
      · cases heq
      cases heq
      have hrest := ih htail
      simp only [Split.text, List.flatMap_cons, List.append_assoc] at hrest ⊢
      rw [hrest, Segment.text, List.append_assoc]

theorem read_eq_ok_iff_segmentsOf {text : String} {ts : List Token} : read text = .ok ts ↔
    ∃ split, segmentsOf text.toList = .ok split ∧ split.1.map Segment.token = ts := by
  rw [read_eq_ok_iff, tokens?]
  cases segmentsOf text.toList with
  | error fault => simp [ofSegments]
  | ok split => simp [ofSegments]

end Token

namespace Split

/-- Segments that their own text is split into. -/
def Settled (split : Split) : Prop := Token.segmentsOf split.text = .ok split

variable {split : Split}

theorem settled_nil : Settled ([], []) := Token.segmentsOf_nil

theorem Settled.behind (h : split.Settled) {c : Char} (hc : Token.isSpace c) : (split.behind c).Settled := by
  rw [Settled, text_behind, Token.segmentsOf_space hc, h]
  rfl

theorem Settled.cons (h : split.Settled) {lexeme : List Char} {token : Token}
    (hfirst : Token.first? (lexeme ++ split.text) = some (token, lexeme.length)) (hne : lexeme ≠ []) :
    (split.cons ⟨[], lexeme, token⟩).Settled := by
  rw [Settled, text_cons, Segment.text, List.nil_append, Token.segmentsOf_lexeme hfirst hne, h]
  rfl

end Split

end StreamQuery
