import StreamQuery.Proofs.Token.Join
import StreamQuery.Proofs.Token.Segment

/-! # Tokens that run together

Tokens that are told apart are read again from their joined text. The condition is exact: what reads a
joined text finds the tokens one after the other, so that each of them is the first one of the text from
there on, and where a condition is violated the first token is another one.
-/

namespace StreamQuery

open Lexeme

/-- A word and a hyphen in front of a label are part of the label. -/
theorem Lexeme.IsBareWord.isLabel_append {word label : List Char} (h : IsBareWord word)
    (hlast : label.getLast? ≠ some '.') : isLabel (word ++ '-' :: label) := by
  obtain ⟨c, others, rfl, -, hstart⟩ := h.head
  have hname := h.chars c List.mem_cons_self
  have hdot : c ≠ '.' := by
    rintro rfl
    exact absurd hname (by decide)
  have hcases : c.isDigit = false ∧ c ≠ '-' := by
    simp only [isNumberStart, Bool.or_eq_false_iff, beq_eq_false_iff_ne] at hstart
    exact ⟨hstart.1.1, hstart.2⟩
  have hend : ((c :: others) ++ '-' :: label).getLast? ≠ some '.' := by
    rw [List.getLast?_append_of_ne_nil _ (List.cons_ne_nil _ _), List.getLast?_cons]
    cases hlabel : label.getLast? with
    | none => decide
    | some d =>
        rw [hlabel] at hlast
        exact hlast
  rw [isLabel, Bool.and_eq_true, bne_iff_ne]
  exact ⟨by simp [hcases, hdot], hend⟩

namespace Token

variable {cs rest : List Char} {ts : List Token} {before last : Option Token} {t : Token}

/-! ## Reading from the left -/

/-- A hyphen is the sign of the digits behind it. -/
theorem first?_negative {c : Char} (h : c.isDigit) :
    ∃ n digits, first? ('-' :: c :: cs) = some (.number digits, n) := by
  have hdigits : count1? Char.isDigit (c :: cs) ≠ none := fun hnone => by
    have hstop : c.isDigit = false := count1?_eq_none_iff.mp hnone c rfl
    rw [h] at hstop
    cases hstop
  obtain ⟨n, hn⟩ := Option.ne_none_iff_exists'.mp hdigits
  have hnumber : ∃ m, numberLength? ('-' :: c :: cs) = some m := by simp [numberLength?, sign, hn]
  obtain ⟨m, hm⟩ := hnumber
  exact ⟨m, _, first?_of_numberLength? hm⟩

/-- A label of several characters begins a prefixed name if a colon follows. -/
theorem first?_label {label : List Char} (hchars : ∀ c ∈ label, isLabelChar c) (hvalid : isLabel label)
    (hblank : label ≠ ['_']) : ∃ n name, first? (label ++ ':' :: cs) = some (.prefixed name, n) := by
  have hprefixed : IsPrefixed label [] := ⟨hchars, hvalid, nofun, nofun⟩
  obtain ⟨c, hhead, hopener, hstart⟩ := hprefixed.head cs
  rw [List.append_assoc, List.singleton_append] at hhead
  obtain ⟨hiri, hvariable, hliteral, hlanguage⟩ := openers_eq_none _ (stops_of_head? hhead hopener)
  have htake : (label ++ ':' :: cs).takeWhile isLabelChar = label := by
    rw [takeWhile_append_of_stops (stops_of_head? rfl (by decide)), List.takeWhile_eq_self_iff.mpr hchars]
  have hnone : blankLength? (label ++ ':' :: cs) = none := by
    refine blankLength?_eq_none_iff.mpr fun tail htail => absurd ?_ hblank
    rw [← htake, htail]
    rfl
  have hlength : ∃ n, prefixedLength? (label ++ ':' :: cs) = some n := by
    simp [prefixedLength?, htake, hvalid]
  obtain ⟨n, hn⟩ := hlength
  rw [first?, hiri, hvariable, hliteral, hlanguage, numberLength?_eq_none (stops_of_head? hhead hstart),
    hnone, hn]
  exact ⟨n, _, rfl⟩

/-- A token in front of its rest is found as it is, and the rest is read on its own, if the text is read
with the token in front. -/
theorem first?_of_tokens? (ht : t.Lexical) (h : tokens? (t.text.toList ++ rest) = some (t :: ts)) :
    first? (t.text.toList ++ rest) = some (t, t.text.toList.length) ∧ tokens? rest = some ts := by
  obtain ⟨c, tail, htext⟩ := List.exists_cons_of_ne_nil ht.text_ne_nil
  have hown := ht.first?_append .nil fun _ => nofun
  rw [List.append_nil] at hown
  have hgap := gap_append_of_first? hown rest
  rw [tokens?_eq, hgap, List.drop_zero, htext, List.cons_append] at h
  dsimp only at h
  split at h
  · next token n hfirst =>
    obtain ⟨others, hothers, heq⟩ := Option.map_eq_some_iff.mp h
    cases heq
    rw [← List.cons_append, ← htext] at hfirst
    have hlength : n.succ = t.text.toList.length := by
      obtain ⟨hle, hlexeme⟩ := lexeme_of_first? hfirst
      rw [← List.length_take_of_le hle]
      rcases hlexeme with hlexeme | ⟨name, rfl, hlexeme⟩
      · rw [hlexeme]
      · rw [hlexeme]
        simp [text, String.toList_append]
    rw [hlength] at hfirst
    refine ⟨hfirst, ?_⟩
    have hdrop : (tail ++ rest).drop n = rest := by
      rw [htext, List.length_cons, Nat.succ_inj] at hlength
      rw [hlength, List.drop_left]
    rwa [hdrop] at hothers
  · cases h

/-- Of joined tokens that are read again, the first one is found as it is, and the others are read. -/
theorem first?_of_tokens?_joinAfter (ht : t.Lexical)
    (h : tokens? (joinAfter before last (t :: ts)) = some (t :: ts)) :
    first? (t.text.toList ++ joinAfter last (some t) ts) = some (t, t.text.toList.length) ∧
      tokens? (joinAfter last (some t) ts) = some ts := by
  refine first?_of_tokens? ht ?_
  rw [joinAfter_cons] at h
  split at h
  · exact h
  · rwa [List.singleton_append, tokens?_space (.inl rfl)] at h

/-! ## What runs together -/

/-- What runs together with a hyphen begins with a digit, or with a label in front of a colon. -/
theorem Lexical.fuses_cases (h : t.Lexical) (hfuses : t.fusesBehindHyphen) :
    (∃ c cs, t.text.toList = c :: cs ∧ c.isDigit) ∨
      ∃ label cs, t.text.toList = label ++ ':' :: cs ∧ (∀ c ∈ label, isLabelChar c) ∧
        label.getLast? ≠ some '.' := by
  cases h with
  | @number digits h =>
      obtain ⟨c, hhead, hstart⟩ := exists_numberStart h
      obtain ⟨others, rfl⟩ := List.head?_eq_some_iff.mp hhead
      refine .inl ⟨c, others, String.toList_ofList, ?_⟩
      have hsign : c ≠ '+' ∧ c ≠ '-' := by simpa [fusesBehindHyphen] using hfuses
      simpa [isNumberStart, hsign] using hstart
  | @blank label => exact .inr ⟨['_'], label, String.toList_ofList, by decide, by decide⟩
  | @«prefixed» label part h =>
      refine .inr ⟨label, part, String.toList_ofList, h.label_chars, ?_⟩
      have hvalid := h.label_valid
      rw [isLabel, Bool.and_eq_true, bne_iff_ne] at hvalid
      exact hvalid.2
  | _ => cases hfuses

/-- Tokens behind `NOW` and a hyphen are not read again if the first one runs together with them. -/
theorem not_fuses_of_tokens?_joinAfter {now next : Token} {others : List Token} (hword : now.isWord "NOW")
    (hts : ∀ t ∈ now :: .punct "-" :: next :: others, t.Lexical)
    (h : tokens? (joinAfter before last (now :: .punct "-" :: next :: others)) =
      some (now :: .punct "-" :: next :: others)) :
    next.fusesBehindHyphen = false := by
  obtain ⟨hnow, htail⟩ := List.forall_mem_cons.mp hts
  obtain ⟨hhyphen, htail⟩ := List.forall_mem_cons.mp htail
  have hnext := htail next List.mem_cons_self
  obtain ⟨hfirst, hread⟩ := first?_of_tokens?_joinAfter hnow h
  obtain ⟨hfirst', -⟩ := first?_of_tokens?_joinAfter hhyphen hread
  have hjoined : isJoined last (some now) (.punct "-") := by simp [isJoined, hword, isPunct]
  have hbehind : IsNowHyphen (some now) (.punct "-") := ⟨rfl, hword⟩
  rw [joinAfter_cons, if_pos hjoined, List.nil_append] at hfirst
  rw [joinAfter_cons, if_pos (isJoined_of_isNowHyphen hbehind next), List.nil_append] at hfirst hfirst'
  by_contra hfuses
  rw [Bool.not_eq_false] at hfuses
  rcases hnext.fuses_cases hfuses with ⟨c, cs, htext, hdigit⟩ | ⟨label, cs, htext, hchars, hlast⟩
  · obtain ⟨n, digits, hnumber⟩ := first?_negative hdigit
    rw [htext] at hfirst'
    cases hnumber.symm.trans hfirst'
  · obtain ⟨hbare, -⟩ := hnow.isBareWord hword
    have hlabel : ∀ c ∈ now.text.toList ++ '-' :: label, isLabelChar c := by
      refine List.forall_mem_append.mpr ⟨fun c hc => isLabelChar_of_isNameChar (hbare.chars c hc), ?_⟩
      exact List.forall_mem_cons.mpr ⟨by decide, hchars⟩
    have hblank : now.text.toList ++ '-' :: label ≠ ['_'] := fun heq => by
      have hmem : '-' ∈ now.text.toList ++ '-' :: label := by simp
      rw [heq] at hmem
      exact absurd hmem (by decide)
    obtain ⟨n, name, hname⟩ := first?_label hlabel (hbare.isLabel_append hlast) hblank
    have hmark : (Token.punct "-").text.toList = ['-'] := rfl
    rw [htext, hmark] at hfirst
    simp only [List.append_assoc, List.cons_append, List.nil_append] at hfirst hname
    rw [hname] at hfirst
    obtain rfl : Token.prefixed name = now := congrArg Prod.fst (Option.some.inj hfirst)
    cases hword

/-- Tokens that are read again from their joined text are told apart. -/
theorem separable_of_tokens?_joinAfter (hts : ∀ t ∈ ts, t.Lexical)
    (h : tokens? (joinAfter before last ts) = some ts) : Separable ts := by
  induction ts generalizing before last with
  | nil => exact .of_not_mem nofun nofun
  | cons t ts ih =>
      obtain ⟨ht, htail⟩ := List.forall_mem_cons.mp hts
      obtain ⟨hfirst, hread⟩ := first?_of_tokens?_joinAfter ht h
      have hsep := ih htail hread
      refine ⟨fun now next hwithin hword => ?_, fun hwithin => ?_⟩
      · rcases List.infix_cons_iff.mp hwithin with ⟨others, hothers⟩ | hwithin
        · cases hothers
          exact not_fuses_of_tokens?_joinAfter hword hts h
        · exact hsep.hyphen now next hwithin hword
      · rcases List.infix_cons_iff.mp hwithin with ⟨others, hothers⟩ | hwithin
        · cases hothers
          -- the caret is joined to the mark, which is found first
          have hmark := first?_datatypeMark ('^' :: joinAfter (some (.punct "^")) (some .datatypeMark) others)
          cases hmark.symm.trans hfirst
        · exact hsep.caret hwithin

/-- The tokens of a text are read again from their joined text just if no `NOW` and hyphen stand in front
of an unsigned number, a prefixed name or a blank node, and no caret in front of the mark of a datatype. -/
theorem read_join_iff {text : String} (h : read text = .ok ts) :
    read (join ts) = .ok ts ↔ Separable ts := by
  have hlexical := lexical_of_tokens? (read_eq_ok_iff.mp h)
  rw [read_eq_ok_iff]
  constructor
  · intro hjoin
    rw [join, String.toList_ofList] at hjoin
    exact separable_of_tokens?_joinAfter hlexical hjoin
  · exact fun hsep => (Reads.join hlexical hsep).tokens?

/-- Behind `NOW`, a hyphen is read again in front of a variable, but not in front of a number. -/
theorem read_join_iff_now :
    read "'5' ^^ xsd:int NOW - ?x" = .ok [.literal "'5'", .datatypeMark, .prefixed "xsd:int", .word "NOW",
      .punct "-", .variable "x"] ∧
    Separable [.literal "'5'", .datatypeMark, .prefixed "xsd:int", .word "NOW", .punct "-", .variable "x"] ∧
    read "NOW - 5" = .ok [.word "NOW", .punct "-", .number "5"] ∧
    read (join [.word "NOW", .punct "-", .number "5"]) ≠ .ok [.word "NOW", .punct "-", .number "5"] := by
  have hread : read "'5' ^^ xsd:int NOW - ?x" = .ok [.literal "'5'", .datatypeMark, .prefixed "xsd:int",
      .word "NOW", .punct "-", .variable "x"] := by decide +kernel
  have hfused : read "NOW - 5" = .ok [.word "NOW", .punct "-", .number "5"] := by decide +kernel
  refine ⟨hread, (read_join_iff hread).mp (by decide +kernel), hfused, fun hjoin => ?_⟩
  have hsep := (read_join_iff hfused).mp hjoin
  exact absurd (hsep.hyphen _ _ List.infix_rfl (by decide)) (by decide)

end Token

end StreamQuery
