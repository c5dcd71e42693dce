import StreamQuery.Proofs.Token.Split

/-! # Joined tokens

Tokens that are written without a space between them are split again where they were joined. Two
sequences are the exception: what stands behind `NOW` and a hyphen can run together with them, and
a caret with the mark of a datatype.
-/

namespace StreamQuery

namespace Token

open Lexeme

variable {rest : List Char} {ts : List Token}

/-- What runs together with `NOW` and a hyphen in front of it. -/
def fusesBehindHyphen : Token → Bool
  | .number text => !text.toList.head?.any fun c => c == '+' || c == '-'
  | .prefixed _ | .blank _ => true
  | _ => false

/-- Tokens that are told apart when they are written as one line of text. -/
structure Separable (ts : List Token) : Prop where
  hyphen : ∀ now next, [now, .punct "-", next] <:+: ts → now.isWord "NOW" →
    next.fusesBehindHyphen = false
  caret : ¬ [.punct "^", .datatypeMark] <:+: ts

theorem Separable.of_isInfix {us : List Token} (h : Separable ts) (hus : us <:+: ts) :
    Separable us where
  hyphen now next hnext hnow := h.hyphen now next (hnext.trans hus) hnow
  caret hcaret := h.caret (hcaret.trans hus)

/-- Without hyphens and marks of datatypes, nothing runs together. -/
theorem Separable.of_not_mem (hhyphen : .punct "-" ∉ ts) (hmark : .datatypeMark ∉ ts) :
    Separable ts where
  hyphen _ _ hwithin _ :=
    absurd (hwithin.subset (List.mem_cons_of_mem _ List.mem_cons_self)) hhyphen
  caret hwithin := hmark (hwithin.subset (List.mem_cons_of_mem _ List.mem_cons_self))

theorem eq_punct_of_isPunct {t : Token} {mark : String} (h : t.isPunct mark) :
    t = .punct mark := by
  cases t with
  | punct text => exact congrArg _ (by simpa [isPunct] using h)
  | _ => cases h

theorem isPunct_of_isWord {t : Token} {word mark : String} (h : t.isWord word) :
    ¬ t.isPunct mark := by
  cases t with
  | word text => exact nofun
  | _ => cases h

/-- A word is any keyword if the keyword that it is. -/
theorem sameLetters_eq {word a : String} (h : Text.sameLetters word a) (b : String) :
    Text.sameLetters word b = Text.sameLetters a b := by
  unfold Text.sameLetters at h ⊢
  rw [eq_of_beq h]

theorem isWord_eq {t : Token} {a : String} (h : t.isWord a) (b : String) :
    t.isWord b = Text.sameLetters a b := by
  cases t with
  | word text => exact sameLetters_eq h b
  | _ => cases h

theorem isJoined_eq {before : Option Token} {last next : Token}
    (hlanguage : ∀ text, next ≠ .language text) (hmark : next ≠ .datatypeMark) :
    isJoined before (some last) next = (last == .datatypeMark ||
      (next.isPunct "-" && last.isWord "NOW") ||
      (last.isPunct "-" && before.any (·.isWord "NOW"))) := by
  cases next with
  | language text => exact absurd rfl (hlanguage text)
  | datatypeMark => exact absurd rfl hmark
  | _ => rfl

/-- A hyphen that stands behind `NOW`. -/
def IsNowHyphen (before : Option Token) (last : Token) : Prop :=
  last = .punct "-" ∧ before.any (·.isWord "NOW")

/-- Behind anything but the mark of a datatype and the hyphen of `NOW-`, only language tags, marks
of datatypes and that hyphen are joined. -/
theorem isJoined_cases {before : Option Token} {last next : Token}
    (h : isJoined before (some last) next) (hlast : last ≠ .datatypeMark)
    (hhyphen : ¬ IsNowHyphen before last) :
    (∃ text, next = .language text) ∨ next = .datatypeMark ∨
      (next = .punct "-" ∧ last.isWord "NOW") := by
  by_cases hlanguage : ∃ text, next = .language text
  · exact .inl hlanguage
  by_cases hmark : next = .datatypeMark
  · exact .inr (.inl hmark)
  rw [isJoined_eq (fun text htext => hlanguage ⟨text, htext⟩) hmark] at h
  simp only [Bool.or_eq_true, Bool.and_eq_true, beq_iff_eq] at h
  rcases h with (h | ⟨hnext, hnow⟩) | ⟨hpunct, hnow⟩
  · exact absurd h hlast
  · exact .inr (.inr ⟨eq_punct_of_isPunct hnext, hnow⟩)
  · exact absurd ⟨eq_punct_of_isPunct hpunct, hnow⟩ hhyphen

/-- What follows the hyphen of `NOW-` is joined to it. -/
theorem isJoined_of_isNowHyphen {before : Option Token} {last : Token}
    (h : IsNowHyphen before last) (next : Token) : isJoined before (some last) next := by
  obtain ⟨rfl, hnow⟩ := h
  cases next <;> simp [isJoined, hnow, isPunct]

theorem joinAfter_cons (before last : Option Token) (t : Token) (ts : List Token) :
    joinAfter before last (t :: ts) = (if isJoined before last t then [] else [' ']) ++
      (t.text.toList ++ joinAfter last (some t) ts) := by
  rw [joinAfter, List.append_assoc]

/-- The text behind a token is a boundary, unless the token is joined to anything. -/
theorem boundary_joinAfter {before : Option Token} {last : Token} (hts : ∀ t ∈ ts, t.Lexical)
    (hrest : Separated rest) (hlast : last ≠ .datatypeMark) (hhyphen : ¬ IsNowHyphen before last)
    (hnow : last.isWord "NOW" → ts.head? ≠ some (.punct "-")) :
    Boundary (joinAfter before (some last) ts ++ rest) := by
  induction ts generalizing before last with
  | nil => exact hrest.boundary
  | cons t ts ih =>
      obtain ⟨ht, htail⟩ := List.forall_mem_cons.mp hts
      rw [joinAfter_cons]
      by_cases hjoined : isJoined before (some last) t
      · rw [if_pos hjoined, List.nil_append, List.append_assoc]
        rcases isJoined_cases hjoined hlast hhyphen with ⟨text, rfl⟩ | rfl | ⟨rfl, hword⟩
        · cases ht with
          | @language cs hlength =>
              obtain ⟨tag, htag, htake, -⟩ := languageLength?_eq_some hlength
              rw [List.take_length] at htake
              rw [Token.text, String.toList_ofList, htake]
              exact .language htag (ih htail (by simp) (by simp [IsNowHyphen]) (by simp [isWord]))
        · exact .of_head (by decide) _
        · exact absurd rfl (hnow hword)
      · rw [if_neg hjoined]
        exact .of_head (by decide) _

/-- A run of label characters that begins a text is not changed by a piece without a colon in
front of it, or ends inside that piece. -/
theorem no_colon_append {piece tail : List Char} (hpiece : ':' ∉ piece)
    (htail : (tail.dropWhile isLabelChar).head? ≠ some ':') :
    ((piece ++ tail).dropWhile isLabelChar).head? ≠ some ':' := by
  rw [List.dropWhile_append]
  split
  · exact htail
  · next hne =>
    intro hhead
    obtain ⟨others, hothers⟩ := List.head?_eq_some_iff.mp hhead
    have hmem : ':' ∈ piece.dropWhile isLabelChar := by
      cases hdrop : piece.dropWhile isLabelChar with
      | nil => simp [hdrop] at hne
      | cons c cs =>
          rw [hdrop] at hothers
          cases hothers
          exact List.mem_cons_self
    exact hpiece ((List.dropWhile_suffix _).subset hmem)

theorem no_colon_of_head {c : Char} {tail : List Char} (hlabel : isLabelChar c = false)
    (hcolon : c ≠ ':') : ((c :: tail).dropWhile isLabelChar).head? ≠ some ':' := by
  simp [hlabel, hcolon]

namespace Lexical

variable {t : Token}

/-- What does not run together with a hyphen begins outside of names, or holds no colon. -/
theorem begins_or_no_colon (h : t.Lexical) (hfuses : t.fusesBehindHyphen = false) :
    (∃ c tail, t.text.toList = c :: tail ∧ isLabelChar c = false ∧ c ≠ ':') ∨
      (t ≠ .datatypeMark ∧ ':' ∉ t.text.toList) := by
  cases h with
  | @iri body => exact .inl ⟨'<', body ++ ['>'], by simp [text, String.toList_append], by decide⟩
  | @«variable» name => exact .inl ⟨'?', name, by simp [text, String.toList_append], by decide⟩
  | literal h =>
      obtain ⟨q, tail, hq, rfl⟩ := exists_of_literalLength? h
      refine .inl ⟨q, tail, String.toList_ofList, ?_⟩
      rcases isQuote_iff.mp hq with rfl | rfl <;> decide
  | language h =>
      obtain ⟨tag, -, htake, -⟩ := languageLength?_eq_some h
      rw [List.take_length] at htake
      exact .inl ⟨'@', tag, by rw [text, String.toList_ofList, htake], by decide⟩
  | datatypeMark => exact .inl ⟨'^', ['^'], rfl, by decide⟩
  | number h =>
      refine .inr ⟨by simp, fun hcolon => ?_⟩
      rw [text, String.toList_ofList] at hcolon
      have := mem_take_numberLength? h ':' (by rwa [List.take_length])
      revert this
      decide
  | blank => cases hfuses
  | «prefixed» => cases hfuses
  | fractional h =>
      refine .inr ⟨by simp, fun hcolon => ?_⟩
      rw [text, String.toList_ofList] at hcolon
      exact absurd (h.chars ':' hcolon) (by decide)
  | word h =>
      refine .inr ⟨by simp, fun hcolon => ?_⟩
      rw [text, String.toList_ofList] at hcolon
      exact absurd (h.chars ':' hcolon) (by decide)
  | punct h =>
      have hmarks : ∀ m ∈ marks, ':' ∉ m.toList := by decide
      exact .inr ⟨by simp, hmarks _ h⟩

/-- What does not run together with a hyphen does not begin with a digit. -/
theorem stops_digit (h : t.Lexical) (hfuses : t.fusesBehindHyphen = false) (tail : List Char) :
    Stops Char.isDigit (t.text.toList ++ tail) := by
  cases h with
  | iri =>
      rw [text, String.toList_append, String.toList_append]
      exact stops_of_head? rfl (by decide)
  | «variable» =>
      rw [text, String.toList_append]
      exact stops_of_head? rfl (by decide)
  | literal h =>
      obtain ⟨q, others, hq, rfl⟩ := exists_of_literalLength? h
      rw [text, String.toList_ofList]
      refine stops_of_head? rfl ?_
      rcases isQuote_iff.mp hq with rfl | rfl <;> decide
  | language h =>
      obtain ⟨tag, -, htake, -⟩ := languageLength?_eq_some h
      rw [List.take_length] at htake
      rw [text, String.toList_ofList, htake]
      exact stops_of_head? rfl (by decide)
  | datatypeMark => exact stops_of_head? rfl (by decide)
  | @number cs h =>
      have hsign : cs.head?.any fun c => c == '+' || c == '-' := by
        simpa [fusesBehindHyphen] using hfuses
      obtain ⟨c, hc, hsign⟩ := (Option.any_eq_true _ _).mp hsign
      obtain ⟨others, rfl⟩ := List.head?_eq_some_iff.mp hc
      have hcases : c = '+' ∨ c = '-' := by simpa using hsign
      rw [text, String.toList_ofList]
      refine stops_of_head? rfl ?_
      rcases hcases with rfl | rfl <;> decide
  | blank => cases hfuses
  | «prefixed» => cases hfuses
  | fractional h =>
      obtain ⟨others, rfl⟩ := List.head?_eq_some_iff.mp h.first
      rw [text, String.toList_ofList]
      exact stops_of_head? rfl (by decide)
  | word h =>
      obtain ⟨c, others, rfl, -, hnumber⟩ := h.head
      rw [text, String.toList_ofList]
      refine stops_of_head? rfl ?_
      simp only [isNumberStart, Bool.or_eq_false_iff] at hnumber
      exact hnumber.1.1
  | @punct mark h =>
      have hmarks : ∀ m ∈ marks, m.toList ≠ [] ∧ m.toList.head?.all (!Char.isDigit ·) := by decide
      obtain ⟨hne, hhead⟩ := hmarks mark h
      obtain ⟨c, others, hcons⟩ := List.exists_cons_of_ne_nil hne
      rw [text, hcons]
      exact stops_of_head? rfl (by simpa [hcons] using hhead)

/-- The word `NOW` has no fraction. -/
theorem isBareWord (h : t.Lexical) (hnow : t.isWord "NOW") :
    IsBareWord t.text.toList ∧ t = .word t.text := by
  cases h with
  | fractional h =>
      obtain ⟨others, rfl⟩ := List.head?_eq_some_iff.mp h.first
      simp [isWord, Text.sameLetters] at hnow
  | word h => exact ⟨by rwa [text, String.toList_ofList], by rw [text]⟩
  | _ => cases hnow

end Lexical

/-- What stands behind a hyphen of `NOW-` does not run together with it. -/
theorem Separable.not_fuses {before : Option Token} {last t : Token}
    (hsep : Separable (before.toList ++ last :: t :: ts)) (h : IsNowHyphen before last) :
    t.fusesBehindHyphen = false := by
  obtain ⟨rfl, hnow⟩ := h
  obtain ⟨now, rfl, hword⟩ := (Option.any_eq_true _ _).mp hnow
  exact hsep.hyphen now t (List.infix_append [] [now, .punct "-", t] ts) hword

theorem Separable.tail {before : Option Token} {last : Token}
    (hsep : Separable (before.toList ++ last :: ts)) : Separable (last :: ts) :=
  hsep.of_isInfix (List.suffix_append _ _).isInfix

/-- What stands behind a token is no label with a colon, unless the token joins everything. -/
theorem no_colon_joinAfter {before : Option Token} {last : Token} (hts : ∀ t ∈ ts, t.Lexical)
    (hsep : Separable (before.toList ++ last :: ts)) (hrest : Separated rest)
    (hlast : last ≠ .datatypeMark) :
    ((joinAfter before (some last) ts ++ rest).dropWhile isLabelChar).head? ≠ some ':' := by
  induction ts generalizing before last with
  | nil => exact hrest.boundary.no_colon
  | cons t ts ih =>
      obtain ⟨ht, htail⟩ := List.forall_mem_cons.mp hts
      rw [joinAfter_cons]
      by_cases hjoined : isJoined before (some last) t
      · have hfuses : t.fusesBehindHyphen = false := by
          by_cases hhyphen : IsNowHyphen before last
          · exact hsep.not_fuses hhyphen
          · rcases isJoined_cases hjoined hlast hhyphen with ⟨text, rfl⟩ | rfl | ⟨rfl, -⟩ <;> rfl
        rw [if_pos hjoined, List.nil_append, List.append_assoc]
        rcases ht.begins_or_no_colon hfuses with ⟨c, cs, htext, hlabel, hcolon⟩ | ⟨hne, hcolon⟩
        · rw [htext]
          exact no_colon_of_head hlabel hcolon
        · exact no_colon_append hcolon (ih htail hsep.tail hne)
      · rw [if_neg hjoined]
        exact no_colon_of_head (by decide) (by decide)

/-- What follows `NOW-` does not begin with a digit. -/
theorem stops_digit_joinAfter {before : Option Token} {last : Token} (hts : ∀ t ∈ ts, t.Lexical)
    (hsep : Separable (before.toList ++ last :: ts)) (hrest : Separated rest)
    (h : IsNowHyphen before last) :
    Stops Char.isDigit (joinAfter before (some last) ts ++ rest) := by
  cases ts with
  | nil => exact hrest.boundary.stops (by decide)
  | cons t ts =>
      rw [joinAfter_cons, if_pos (isJoined_of_isNowHyphen h t), List.nil_append,
        List.append_assoc]
      exact (hts t List.mem_cons_self).stops_digit (hsep.not_fuses h) _

/-- A token is found again in front of the tokens that are joined to it. -/
theorem first?_joinAfter {last : Option Token} {t : Token} (ht : t.Lexical)
    (hts : ∀ u ∈ ts, u.Lexical) (hsep : Separable (last.toList ++ t :: ts))
    (hrest : Separated rest) :
    first? (t.text.toList ++ (joinAfter last (some t) ts ++ rest)) =
      some (t, t.text.toList.length) := by
  by_cases hmark : t = .datatypeMark
  · subst hmark
    exact first?_datatypeMark _
  by_cases hhyphen : IsNowHyphen last t
  · obtain ⟨rfl, -⟩ := id hhyphen
    exact first?_hyphen (stops_digit_joinAfter hts hsep hrest hhyphen)
  -- a hyphen is joined to NOW, so that no space ends the word
  by_cases hnow : t.isWord "NOW" ∧ ts.head? = some (.punct "-")
  · obtain ⟨hword, hhead⟩ := hnow
    obtain ⟨hbare, htext⟩ := ht.isBareWord hword
    obtain ⟨others, rfl⟩ := List.head?_eq_some_iff.mp hhead
    have hjoined : isJoined last (some t) (.punct "-") := by simp [isJoined, hword, isPunct]
    have hcolon := no_colon_joinAfter hts hsep hrest hmark
    rw [joinAfter_cons, if_pos hjoined] at hcolon ⊢
    have hread := first?_bareWord hbare (stops_of_head? rfl (by decide))
      (stops_of_head? rfl (by decide)) hcolon
    rw [hread, String.ofList_toList, ← htext]
  · have hboundary := boundary_joinAfter hts hrest hmark hhyphen fun hword hhead =>
      hnow ⟨hword, hhead⟩
    refine ht.first?_append hboundary fun hcaret => ?_
    subst hcaret
    cases ts with
    | nil => exact hrest.no_caret
    | cons u us =>
        rw [joinAfter_cons]
        by_cases hjoined : isJoined last (some (.punct "^")) u
        · rcases isJoined_cases hjoined hmark hhyphen with ⟨text, rfl⟩ | rfl | ⟨-, hword⟩
          · cases hts _ List.mem_cons_self with
            | language h =>
                obtain ⟨tag, -, htake, -⟩ := languageLength?_eq_some h
                rw [List.take_length] at htake
                rw [if_pos hjoined, Token.text, String.toList_ofList, htake]
                simp
          · -- only a datatype mark behind the caret would run together with it
            refine absurd ?_ hsep.caret
            exact ⟨last.toList, us, by simp⟩
          · cases hword
        · rw [if_neg hjoined]
          simp

theorem tokens?_joinAfter {before last : Option Token} (hts : ∀ t ∈ ts, t.Lexical)
    (hsep : Separable (before.toList ++ (last.toList ++ ts))) (hrest : Separated rest) :
    tokens? (joinAfter before last ts ++ rest) = (tokens? rest).map (ts ++ ·) := by
  induction ts generalizing before last with
  | nil => simp [joinAfter]
  | cons t ts ih =>
      obtain ⟨ht, htail⟩ := List.forall_mem_cons.mp hts
      have hseptail : Separable (last.toList ++ t :: ts) :=
        hsep.of_isInfix (List.suffix_append _ _).isInfix
      have hspace : tokens? (joinAfter before last (t :: ts) ++ rest) =
          tokens? (t.text.toList ++ (joinAfter last (some t) ts ++ rest)) := by
        rw [joinAfter_cons]
        split
        · simp
        · simp [tokens?_space]
      rw [hspace, tokens?_lexeme (first?_joinAfter ht htail hseptail hrest) ht.text_ne_nil,
        ih htail hseptail, Option.map_map]
      rfl

/-- Joined tokens are read as themselves. -/
theorem Reads.join (hts : ∀ t ∈ ts, t.Lexical) (hsep : Separable ts) :
    Reads (Token.join ts).toList ts := by
  intro rest hrest
  rw [Token.join, String.toList_ofList]
  exact tokens?_joinAfter hts hsep hrest

/-- A point in the past, whose distance does not run together with the hyphen. -/
theorem Reads.past {t : Token} (h : t.Lexical) (hfuses : t.fusesBehindHyphen = false) :
    Reads ("NOW-".toList ++ t.text.toList) [.word "NOW", .punct "-", t] := by
  have hhyphen : IsNowHyphen (some (.word "NOW")) (.punct "-") := ⟨rfl, by decide⟩
  have hjoin : (Token.join [.word "NOW", .punct "-", t]).toList =
      "NOW-".toList ++ t.text.toList := by
    rw [Token.join, String.toList_ofList, joinAfter_cons, joinAfter_cons, joinAfter_cons,
      if_pos (isJoined_of_isNowHyphen hhyphen t)]
    simp [joinAfter, isJoined, isPunct, isWord, Token.text, Text.sameLetters]
  have hword : (Token.word "NOW").Lexical := .of_isAlpha (by decide) (by decide)
  have hmark : (Token.punct "-").Lexical := .punct (by decide)
  rw [← hjoin]
  refine .join (by simp [hword, hmark, h]) ⟨fun now next hwithin _ => ?_, fun hwithin => ?_⟩
  · cases hwithin.eq_of_length rfl
    exact hfuses
  · have hcaret : Token.punct "^" = t := by
      simpa using hwithin.subset List.mem_cons_self
    have hdatatype : Token.datatypeMark = t := by
      simpa using hwithin.subset (List.mem_cons_of_mem _ List.mem_cons_self)
    cases hcaret.trans hdatatype.symm

end Token

end StreamQuery
