import StreamQuery.Proofs.Iri
import StreamQuery.Proofs.Term
import StreamQuery.Proofs.Token.Steady

/-! # The tokens of terms

The N-Triples form of a term is split into tokens: an IRI, a variable, or a literal with the mark of
its datatype or its language tag behind it. Whatever characters a literal holds, it is one token.
-/

namespace StreamQuery

open Text Lexeme Token

/-! ### Language tags -/

namespace LanguageTag

/-- A character of a language tag. -/
def isTagChar (c : Char) : Bool := c.isAlphanum || c == '-'

/-- Characters that a language tag can be made of: a letter, and letters, digits and hyphens. -/
structure IsTag (cs : List Char) : Prop where
  first : cs.head?.any Char.isAlpha
  chars : ∀ c ∈ cs, isTagChar c

theorem toLower_class (c : Char) :
    c.toLower.isAlpha = c.isAlpha ∧ isTagChar c.toLower = isTagChar c := by
  by_cases hascii : c.toNat < 128
  · have hall : ∀ n < 128, (Char.ofNat n).toLower.isAlpha = (Char.ofNat n).isAlpha ∧
        isTagChar (Char.ofNat n).toLower = isTagChar (Char.ofNat n) := by decide +kernel
    have hc := hall _ hascii
    rwa [Char.ofNat_toNat] at hc
  · have hsame : c.toLower = c := by
      unfold Char.toLower
      rw [dif_neg]
      simp only [ge_iff_le, UInt32.le_iff_toNat_le, Char.toNat_val, not_and, not_le]
      intro _
      exact Nat.lt_of_lt_of_le (by decide) (Nat.not_lt.mp hascii)
    rw [hsame]
    exact ⟨rfl, rfl⟩

theorem IsTag.of_lower {cs : List Char} (h : IsTag (cs.map Char.toLower)) : IsTag cs where
  first := by
    have hfirst := h.first
    cases cs with
    | nil => cases hfirst
    | cons c cs => simpa [toLower_class] using hfirst
  chars c hc := by
    rw [← (toLower_class c).2]
    exact h.chars _ (List.mem_map_of_mem hc)

theorem isAlphanum_of_followsFrom {stage : Stage} {pieces : List (List Char)}
    (h : followsFrom stage pieces) : ∀ piece ∈ pieces, ∀ c ∈ piece, c.isAlphanum := by
  induction pieces generalizing stage with
  | nil => nofun
  | cons piece pieces ih =>
      simp only [followsFrom, Bool.and_eq_true, List.all_eq_true, Option.any_eq_true] at h
      obtain ⟨⟨-, hpiece⟩, next, -, hrest⟩ := h
      exact List.forall_mem_cons.mpr ⟨hpiece, ih hrest⟩

theorem chars_of_followsFrom {stage : Stage} {cs : List Char}
    (h : followsFrom stage (splitAll '-' cs)) : ∀ c ∈ cs, isTagChar c := by
  intro c hc
  rcases IriGrammar.mem_of_splitAll '-' hc with rfl | ⟨piece, hpiece, hmem⟩
  · rfl
  · simp [isTagChar, isAlphanum_of_followsFrom h piece hpiece c hmem]

theorem first_of_followsFrom {cs : List Char} (h : followsFrom .language (splitAll '-' cs)) :
    cs.head?.any Char.isAlpha := by
  have hsubtag : ∀ {piece pieces}, followsFrom .language (piece :: pieces) →
      piece.head?.any Char.isAlpha := by
    intro piece pieces hpieces
    simp only [followsFrom, nextStage, Bool.and_eq_true, Option.any_eq_true,
      Option.ite_none_right_eq_some] at hpieces
    obtain ⟨⟨⟨hne, -⟩, -⟩, next, ⟨⟨-, halpha⟩, -⟩, -⟩ := hpieces
    cases piece with
    | nil => simp at hne
    | cons c piece => exact List.all_eq_true.mp halpha c List.mem_cons_self
  cases cs with
  | nil => exact hsubtag h
  | cons c cs =>
      rw [splitAll] at h
      split at h
      · cases hsubtag h
      · split at h
        · simpa using hsubtag h
        · simpa using hsubtag h

theorem isTag_of_isWellFormed {tag : List Char} (h : isWellFormed tag) : IsTag tag := by
  have hirregular : ∀ known ∈ irregular, (known.toList.map Char.toLower).head?.any Char.isAlpha ∧
      ∀ c ∈ known.toList.map Char.toLower, isTagChar c := by decide +kernel
  rw [isWellFormed, Bool.or_eq_true] at h
  rcases h with h | h
  · obtain ⟨known, hknown, heq⟩ := List.any_eq_true.mp h
    obtain ⟨hfirst, hchars⟩ := hirregular known hknown
    rw [eq_of_beq heq] at hfirst hchars
    exact .of_lower ⟨hfirst, hchars⟩
  · split at h
    · next rest hlower =>
      refine .of_lower ?_
      rw [hlower]
      refine ⟨rfl, List.forall_mem_cons.mpr ⟨by decide, List.forall_mem_cons.mpr ⟨by decide, ?_⟩⟩⟩
      exact chars_of_followsFrom h
    · exact ⟨first_of_followsFrom h, chars_of_followsFrom h⟩

theorem IsTag.lexical {tag : String} (h : IsTag tag.toList) :
    (Token.language ("@" ++ tag)).Lexical := by
  have hcount : count Char.isAlpha tag.toList ≠ 0 := by
    rw [Ne, count_eq_zero_iff]
    intro hstops
    obtain ⟨c, hc, halpha⟩ := (Option.any_eq_true _ _).mp h.first
    rw [hstops c hc] at halpha
    cases halpha
  have hall : count isTagChar (tag.toList.drop (count Char.isAlpha tag.toList)) =
      (tag.toList.drop (count Char.isAlpha tag.toList)).length :=
    count_self fun c hc => h.chars c (List.mem_of_mem_drop hc)
  have hle := count_le Char.isAlpha tag.toList
  have hlength : languageLength? ('@' :: tag.toList) = some ('@' :: tag.toList).length := by
    rw [languageLength?, count1?_eq_some_iff.mpr ⟨rfl, hcount⟩]
    change some (_ + 1 + count isTagChar _) = _
    rw [hall, List.length_drop, List.length_cons]
    congr 1
    omega
  have htext : "@" ++ tag = String.ofList ('@' :: tag.toList) := by
    rw [← String.toList_inj]
    simp [String.toList_append]
  rw [htext]
  exact .language hlength

end LanguageTag

/-! ### Literals -/

namespace Literal

theorem stringEnd?_plain {plain : List Char} (hplain : ∀ c ∈ plain, c ∉ ['"', '\\', '\n', '\r'])
    (cs : List Char) : stringEnd? ['"'] false (plain ++ cs) =
      (stringEnd? ['"'] false cs).map (· + plain.length) := by
  induction plain with
  | nil => simp
  | cons c plain ih =>
      obtain ⟨hc, hrest⟩ := List.forall_mem_cons.mp hplain
      simp only [List.mem_cons, List.not_mem_nil, or_false, not_or] at hc
      rw [List.cons_append, stringEnd?_cons (by simp [List.cons_prefix_cons, Ne.symm hc.1]) hc.2.1,
        if_neg (by simp [hc]), ih hrest, Option.map_map]
      congr 1

/-- What is written for one character is no end of the literal. -/
theorem stringEnd?_escapeChar (c : Char) (cs : List Char) :
    stringEnd? ['"'] false (escapeChar c ++ cs) =
      (stringEnd? ['"'] false cs).map (· + (escapeChar c).length) := by
  have hescaped : ∀ d others, (∀ c ∈ others, c ∉ ['"', '\\', '\n', '\r']) →
      stringEnd? ['"'] false ('\\' :: d :: others ++ cs) =
        (stringEnd? ['"'] false cs).map (· + ('\\' :: d :: others).length) := by
    intro d others hothers
    rw [List.cons_append, List.cons_append, stringEnd?_escape (by simp [List.cons_prefix_cons]),
      stringEnd?_plain hothers, Option.map_map]
    congr 1
  unfold escapeChar
  split
  case h_8 _ _ hnewline _ hreturn hquote hbackslash =>
    split
    · next hcode =>
      have hmem : c.toNat ∈ escapedCodes := by
        simp [escapedCodes] at hcode ⊢
        omega
      have hdigits : ∀ n ∈ escapedCodes, ∀ c ∈ hexCode n, c ∉ ['"', '\\', '\n', '\r'] := by
        decide +kernel
      exact hescaped 'u' _ (hdigits _ hmem)
    · refine stringEnd?_plain (List.forall_mem_singleton.mpr ?_) cs
      simpa using ⟨hquote, hbackslash, hnewline, hreturn⟩
  all_goals exact hescaped _ [] (by simp)

theorem stringEnd?_escaped (value rest : List Char) :
    stringEnd? ['"'] false (value.flatMap escapeChar ++ '"' :: rest) =
      some ((value.flatMap escapeChar).length + 1) := by
  induction value with
  | nil => exact stringEnd?_of_isPrefix ⟨rest, rfl⟩ (by decide)
  | cons c value ih =>
      rw [List.flatMap_cons, List.append_assoc, stringEnd?_escapeChar, ih]
      simp
      omega

/-- A quoted lexical form is one token. -/
theorem lexical_quoted (value : String) : (Token.literal (quoted value)).Lexical := by
  have hend := stringEnd?_escaped value.toList []
  have hsingle : ¬ ['"', '"'] <+: value.toList.flatMap escapeChar ++ ['"'] := by
    intro hprefix
    have hfirst : ['"'] <+: value.toList.flatMap escapeChar ++ ['"'] :=
      (List.prefix_append ['"'] ['"']).trans hprefix
    rw [stringEnd?_of_isPrefix hfirst (by decide), Option.some.injEq] at hend
    have hlength := hprefix.length_le
    simp only [List.length_append, List.length_cons, List.length_nil] at hend hlength
    omega
  refine .literal ?_
  rw [List.cons_append, literalLength?_cons (by decide), if_neg hsingle, hend]
  simp

end Literal

/-! ### Terms -/

namespace Term

/-- The tokens of the N-Triples form of a term. -/
def tokens : Term → List Token
  | .iri i => [.iri i.text]
  | .variable v => [.variable v.name]
  | .literal l =>
    match l.annotation with
    | .plain => [.literal (Literal.quoted l.value)]
    | .datatype text _ => [.literal (Literal.quoted l.value), .datatypeMark, .iri text]
    | .language tag => [.literal (Literal.quoted l.value), .language ("@" ++ tag)]

/-- A term with a valid datatype or language tag, or the name of a variable in query text. -/
def Legal : Term → Prop
  | .iri _ => True
  | .variable v => (Token.variable v.name).Lexical
  | .literal l =>
    match l.annotation with
    | .plain => True
    | .datatype text _ => ∃ iri : Iri, iri.text = text
    | .language tag => LanguageTag.isWellFormed tag.toList

variable {term : Term}

theorem toList_text (term : Term) : term.text.toList = term.tokens.flatMap (·.text.toList) := by
  cases term with
  | iri i => simp [text, tokens, Token.text, Iri.bracketed, String.toList_append]
  | «variable» v => simp [text, tokens, Token.text, String.toList_append]
  | literal l =>
      simp only [text, tokens, Literal.text]
      cases l.annotation <;> simp [Token.text, String.toList_append]

theorem Legal.lexical (h : term.Legal) : ∀ t ∈ term.tokens, t.Lexical := by
  have hiri : ∀ iri : Iri, (Token.iri iri.text).Lexical := fun iri => .of_iri_chars iri.isIriChar_of_mem
  cases term with
  | iri i => exact List.forall_mem_singleton.mpr (hiri i)
  | «variable» v => exact List.forall_mem_singleton.mpr h
  | literal l =>
      have hquoted := Literal.lexical_quoted l.value
      unfold tokens
      unfold Legal at h
      dsimp only at h ⊢
      split at h
      · simpa using hquoted
      · obtain ⟨iri, rfl⟩ := h
        simpa using ⟨hquoted, .datatypeMark, hiri iri⟩
      · simpa using ⟨hquoted, (LanguageTag.isTag_of_isWellFormed h).lexical⟩

/-- The tokens of a term behind the spaces in front of it. -/
def segments (gap : List Char) (term : Term) : List Segment :=
  match term.tokens with
  | [] => []
  | t :: ts => ⟨gap, t.text.toList, t⟩ :: ts.map fun t => ⟨[], t.text.toList, t⟩

theorem tokens_ne_nil (term : Term) : term.tokens ≠ [] := by
  cases term with
  | literal l =>
      unfold tokens
      dsimp only
      split <;> simp
  | _ => simp [tokens]

theorem map_token_segments (gap : List Char) (term : Term) :
    (term.segments gap).map Segment.token = term.tokens := by
  unfold segments
  cases term.tokens with
  | nil => rfl
  | cons t ts => simp [Function.comp_def]

theorem flatMap_text_segments (gap : List Char) (term : Term) :
    (term.segments gap).flatMap Segment.text = gap ++ term.text.toList := by
  obtain ⟨t, ts, htokens⟩ := List.exists_cons_of_ne_nil term.tokens_ne_nil
  rw [toList_text, segments, htokens]
  simp [Segment.text, List.flatMap_map]

/-- A term in front of a boundary keeps steady what follows it. -/
theorem Legal.steady {rest : Split} (h : term.Legal) (hboundary : Boundary rest.text)
    (hrest : rest.Steady) : Split.Steady (term.segments [] ++ rest.1, rest.2) := by
  have hlexical := h.lexical
  cases term with
  | iri i => exact hrest.lead (hlexical _ List.mem_cons_self) nofun hboundary
  | «variable» v => exact hrest.lead (hlexical _ List.mem_cons_self) nofun hboundary
  | literal l =>
      obtain ⟨value, annotation⟩ := l
      cases annotation with
      | plain => exact hrest.lead (hlexical _ List.mem_cons_self) nofun hboundary
      | datatype text proper =>
          obtain ⟨hquoted, hlexical⟩ := List.forall_mem_cons.mp hlexical
          obtain ⟨hmark, hlexical⟩ := List.forall_mem_cons.mp hlexical
          have hiri := hrest.lead (List.forall_mem_singleton.mp hlexical) nofun hboundary
          have hmarked := Split.Steady.token hmark (fun other _ => first?_datatypeMark other) nofun hiri
          refine hmarked.lead hquoted nofun ?_
          rw [Split.text_cons]
          exact .of_head (c := '^') (by decide) _
      | language tag =>
          obtain ⟨hquoted, hlexical⟩ := List.forall_mem_cons.mp hlexical
          have htag := hrest.lead (List.forall_mem_singleton.mp hlexical) nofun hboundary
          refine htag.lead hquoted nofun ?_
          have hchars := (LanguageTag.isTag_of_isWellFormed h).chars
          simpa [Segment.text, Token.text, String.toList_append] using
            Boundary.language hchars hboundary

/-- The first character of a term, and that nothing in a variable ends an IRI. -/
theorem Legal.head (h : term.Legal) : ∃ c tail, term.text.toList = c :: tail ∧ c ∈ ['?', '<', '"'] ∧
    (c = '?' → ∀ d ∈ tail, isIriChar d) := by
  cases term with
  | iri i => exact ⟨'<', i.text.toList ++ ['>'], i.toList_bracketed, by decide, fun heq => absurd heq (by decide)⟩
  | «variable» v =>
      refine ⟨'?', v.name.toList, String.toList_append, by decide, fun _ d hd => ?_⟩
      exact isIriChar_of_isNameChar (h.name_chars d hd)
  | literal l =>
      obtain ⟨tail, htail⟩ : ∃ tail, (Literal.quoted l.value).toList = '"' :: tail :=
        ⟨_, String.toList_ofList⟩
      simp only [text, Literal.text]
      cases l.annotation with
      | plain => exact ⟨'"', tail, htail, by decide, fun heq => absurd heq (by decide)⟩
      | datatype text proper =>
          refine ⟨'"', tail ++ ("^^<" ++ text ++ ">").toList, ?_, by decide, fun heq => absurd heq (by decide)⟩
          simp [String.toList_append, htail]
      | language tag =>
          refine ⟨'"', tail ++ ("@" ++ tag).toList, ?_, by decide, fun heq => absurd heq (by decide)⟩
          simp [String.toList_append, htail]

/-- What stands in place of a variable does not change how the text in front of it is split. -/
theorem Legal.resembles (h : term.Legal) {name : List Char} (hname : ∀ c ∈ name, Lexeme.isNameChar c)
    {cs other : List Char} (hcs : Resembles cs other) :
    Resembles ('?' :: name ++ cs) (term.text.toList ++ other) := by
  obtain ⟨c, tail, htext, hc, hvariable⟩ := h.head
  rw [htext]
  have hlabel : ∀ d ∈ ['?', '<', '"'], isLabelChar d = false ∧ d ≠ ':' := by decide
  have hiri : ∀ d ∈ ['?', '<', '"'], d = '?' ∨ isIriChar d = false ∧ d ≠ '>' := by decide
  refine ⟨.inr ⟨rfl, ?_⟩, fun hopen => ?_, fun _ => ?_⟩
  · rintro d ⟨⟩
    exact hc
  · have hsigil : ∀ d ∈ '?' :: name, isIriChar d :=
      List.forall_mem_cons.mpr ⟨by decide, fun d hd => isIriChar_of_isNameChar (hname d hd)⟩
    rw [List.dropWhile_append_of_pos hsigil] at hopen
    rcases hiri c hc with rfl | ⟨hstop, hclose⟩
    · rw [List.dropWhile_append_of_pos
        (List.forall_mem_cons.mpr ⟨by decide, hvariable rfl⟩)]
      exact hcs.iri hopen
    · simpa [hstop] using hclose
  · exact no_colon_of_head (hlabel c hc).1 (hlabel c hc).2

end Term

end StreamQuery
