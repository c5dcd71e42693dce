import StreamQuery.Proofs.Token.Lexical

/-! # Splitting text into tokens

Text is split by two rules: a space in front of text does not count, and a token that is found at
the beginning of a text is followed by the tokens of what remains. Pieces of text are tied to their
tokens by `Reads`, whatever text follows behind a space.
-/

namespace StreamQuery

namespace Token

open Lexeme

variable {cs rest : List Char} {ts us : List Token} {n : Nat}

/-- The tokens of segments. -/
def ofSegments :
    Except (LexicalFault × List Char) (List Segment × List Char) → Option (List Token)
  | .ok (segments, _) => some (segments.map Segment.token)
  | .error _ => none

/-- The tokens of a text, without their places. -/
def tokens? (cs : List Char) : Option (List Token) := ofSegments (segmentsOf cs)

theorem read_eq_ok_iff {text : String} : read text = .ok ts ↔ tokens? text.toList = some ts := by
  unfold read segments tokens?
  cases segmentsOf text.toList with
  | error fault => simp [ofSegments, Except.mapError, Except.map]
  | ok result => simp [ofSegments, Except.mapError, Except.map]

theorem ofSegments_bind {result : Except (LexicalFault × List Char) (List Segment × List Char)}
    {space lexeme : List Char} {token : Token} :
    ofSegments (do
      let (segments, last) ← result
      return (⟨space, lexeme, token⟩ :: segments, last)) =
      (ofSegments result).map (token :: ·) := by
  cases result <;> rfl

/-- Tokens are read behind the spaces and comments in front of them. -/
theorem tokens?_eq (cs : List Char) : tokens? cs =
    match cs.drop (gap false cs) with
    | [] => some []
    | c :: rest =>
      match first? (c :: rest) with
      | some (token, n + 1) => (tokens? (rest.drop n)).map (token :: ·)
      | _ => none := by
  unfold tokens?
  rw [segmentsOf]
  dsimp only
  split
  · next h =>
    rw [h]
    rfl
  · next c rest h =>
    rw [h]
    dsimp only
    -- a token without characters is no token
    have hfault : ∀ first : LexicalFault, ofSegments (.error (first, c :: rest)) = none :=
      fun _ => rfl
    cases hfirst : first? (c :: rest) with
    | none =>
      dsimp only
      split <;> exact hfault _
    | some found =>
      obtain ⟨token, length⟩ := found
      cases length with
      | zero =>
        dsimp only
        split <;> exact hfault _
      | succ n => exact ofSegments_bind

theorem tokens?_nil : tokens? [] = some [] := by
  rw [tokens?_eq]
  rfl

theorem tokens?_space {c : Char} (h : c = ' ' ∨ c = '\n') : tokens? (c :: cs) = tokens? cs := by
  have hgap : gap false (c :: cs) = gap false cs + 1 := by
    rcases h with rfl | rfl <;> rfl
  rw [tokens?_eq (c :: cs), tokens?_eq cs, hgap, List.drop_succ_cons]

/-- A space begins no token, and neither does a comment. -/
theorem first?_gap {c : Char} (h : isSpace c ∨ c = '#') : first? (c :: cs) = none := by
  have hc : c ∈ [' ', '\t', '\r', '\n', '#'] := by
    simpa only [isSpace, Bool.or_eq_true, beq_iff_eq, List.mem_cons, List.not_mem_nil, or_false,
      or_assoc] using h
  have hall : ∀ d ∈ [' ', '\t', '\r', '\n', '#'], isOpener d = false ∧ isNumberStart d = false ∧
      isQuote d = false ∧ isLabelChar d = false ∧ d ≠ ':' ∧ d ≠ '@' := by decide
  obtain ⟨hopener, hnumber, hquote, hlabel, hcolon, hat⟩ := hall c hc
  obtain ⟨hiri, hvariable, -, -⟩ := openers_eq_none (c :: cs) (stops_of_head? rfl hopener)
  -- so what is left to try is a mark, and none begins with one of these
  have hbegins : BeginsWithMark (c :: cs) := .of_symbol hiri hvariable
    (numberLength?_eq_none (stops_of_head? rfl hnumber)) hquote hlabel hcolon hat
  rw [hbegins.first?_eq]
  simp only [List.mem_cons, List.not_mem_nil, or_false] at hc
  rcases hc with rfl | rfl | rfl | rfl | rfl <;> rfl

theorem gap_eq_zero {c : Char} (h : ¬ (isSpace c ∨ c = '#')) (cs : List Char) : gap false (c :: cs) = 0 := by
  rw [not_or] at h
  simp [gap, h]

/-- No spaces and no comment stand in front of a token. -/
theorem gap_append_of_first? {found : Token × Nat} (h : first? cs = some found) (rest : List Char) :
    gap false (cs ++ rest) = 0 := by
  cases cs with
  | nil => cases h
  | cons c cs =>
      refine gap_eq_zero (fun hc => ?_) (cs ++ rest)
      rw [first?_gap hc] at h
      cases h

theorem gap_eq_zero_of_first? {found : Token × Nat} (h : first? cs = some found) : gap false cs = 0 := by
  have hgap := gap_append_of_first? h []
  rwa [List.append_nil] at hgap

/-- What is found at the beginning of a text is its first token. -/
theorem tokens?_cons {token : Token} (h : first? cs = some (token, n + 1)) :
    tokens? cs = (tokens? (cs.drop (n + 1))).map (token :: ·) := by
  have hgap := gap_eq_zero_of_first? h
  cases cs with
  | nil => cases h
  | cons c rest =>
      rw [tokens?_eq, hgap, List.drop_zero]
      dsimp only
      rw [h]
      rfl

theorem tokens?_lexeme {lexeme : List Char} {token : Token}
    (h : first? (lexeme ++ rest) = some (token, lexeme.length)) (hne : lexeme ≠ []) :
    tokens? (lexeme ++ rest) = (tokens? rest).map (token :: ·) := by
  obtain ⟨n, hn⟩ := Nat.exists_eq_succ_of_ne_zero (List.length_pos_iff.mpr hne).ne'
  rw [hn] at h
  rw [tokens?_cons h, ← Nat.succ_eq_add_one, ← hn, List.drop_left]

theorem Lexical.text_ne_nil {token : Token} (h : token.Lexical) : token.text.toList ≠ [] := by
  cases h with
  | iri => simp [text, String.toList_append]
  | «variable» => simp [text, String.toList_append]
  | literal h =>
      rw [text, String.toList_ofList]
      rintro rfl
      cases h
  | language h =>
      rw [text, String.toList_ofList]
      rintro rfl
      cases h
  | datatypeMark => decide
  | number h =>
      rw [text, String.toList_ofList]
      rintro rfl
      cases h
  | blank => simp [text]
  | «prefixed» => simp [text]
  | fractional h =>
      rw [text, String.toList_ofList]
      rintro rfl
      exact absurd h.first (by decide)
  | word h =>
      rw [text, String.toList_ofList]
      rintro rfl
      exact absurd h.first (by decide)
  | punct h =>
      have hmarks : ∀ m ∈ marks, m.toList ≠ [] := by decide
      exact hmarks _ h

/-- The token of a text that is a token. -/
theorem Lexical.tokens?_text {token : Token} (h : token.Lexical) : tokens? token.text.toList = some [token] := by
  have hfirst := h.first?_append .nil fun _ => nofun
  have htokens := tokens?_lexeme hfirst h.text_ne_nil
  rwa [List.append_nil, tokens?_nil] at htokens

/-- The tokens of a text are lexical. -/
theorem lexical_of_tokens? (h : tokens? cs = some ts) : ∀ t ∈ ts, t.Lexical := by
  -- gaps and tokens are dropped together, so the induction is on the length of what is left
  obtain ⟨k, hk⟩ : ∃ k, cs.length ≤ k := ⟨_, Nat.le_refl _⟩
  induction k generalizing cs ts with
  | zero =>
      obtain rfl := List.eq_nil_of_length_eq_zero (Nat.le_zero.mp hk)
      rw [tokens?_nil] at h
      cases h
      nofun
  | succ k ih =>
      rw [tokens?_eq] at h
      split at h
      · cases h
        nofun
      · next c rest hdrop =>
        have hlength : rest.length + 1 ≤ cs.length := by
          have := congrArg List.length hdrop
          simp only [List.length_drop, List.length_cons] at this
          omega
        split at h
        · next token n hfirst =>
          obtain ⟨tail, htail, rfl⟩ := Option.map_eq_some_iff.mp h
          intro t ht
          rcases List.mem_cons.mp ht with rfl | ht
          · exact lexical_of_first? hfirst
          · exact ih htail (by rw [List.length_drop]; omega) t ht
        · cases h

/-- What can stand behind the last of several tokens: the end of a text, a space, the end of a line,
or a bracket. -/
structure Separated (rest : List Char) : Prop where
  boundary : Boundary rest
  no_caret : rest.head? ≠ some '^'

namespace Separated

theorem nil : Separated [] := ⟨.nil, nofun⟩

theorem space (rest : List Char) : Separated (' ' :: rest) := ⟨.of_head (by decide) rest, nofun⟩

theorem newline (rest : List Char) : Separated ('\n' :: rest) := ⟨.of_head (by decide) rest, nofun⟩

theorem bracket (h : Separated rest) : Separated (']' :: rest) := ⟨h.boundary.bracket, nofun⟩

end Separated

/-- A piece of text has the given tokens, whatever follows apart from them. -/
def Reads (cs : List Char) (ts : List Token) : Prop :=
  ∀ rest, Separated rest → tokens? (cs ++ rest) = (tokens? rest).map (ts ++ ·)

namespace Reads

theorem nil : Reads [] [] := by
  intro rest _
  simp

theorem tokens? (h : Reads cs ts) : tokens? cs = some ts := by
  have := h [] .nil
  simpa [tokens?_nil] using this

theorem eq_nil (h : Reads [] ts) : ts = [] := by
  have := h.tokens?
  rw [tokens?_nil] at this
  exact (Option.some_inj.mp this).symm

theorem token {t : Token} (h : t.Lexical) : Reads t.text.toList [t] := by
  intro rest hrest
  exact tokens?_lexeme (h.first?_append hrest.boundary fun _ => hrest.no_caret) h.text_ne_nil

theorem append {as bs : List Char} (ha : Reads as ts) (hb : Reads bs us) :
    Reads (as ++ ' ' :: bs) (ts ++ us) := by
  intro rest hrest
  rw [List.append_assoc, List.cons_append, ha _ (.space _), tokens?_space (.inl rfl), hb _ hrest,
    Option.map_map]
  simp [Function.comp_def]

/-- A piece of text in square brackets. -/
theorem bracketed (h : Reads cs ts) :
    Reads ('[' :: cs ++ [']']) (.punct "[" :: ts ++ [.punct "]"]) := by
  intro rest hrest
  have hopening : ∀ tail, Token.tokens? ('[' :: tail) =
      (Token.tokens? tail).map (.punct "[" :: ·) := by
    intro tail
    have hfirst : first? ('[' :: tail) = some (.punct "[", 1) := by
      rw [(BeginsWithMark.of_mem (by decide) tail).first?_eq]
      rfl
    exact tokens?_cons hfirst
  have hmark : (Token.punct "]").Lexical := .punct (by decide)
  have hclosing : Token.tokens? (']' :: rest) = (Token.tokens? rest).map (.punct "]" :: ·) :=
    tokens?_lexeme (hmark.first?_append hrest.boundary nofun) hmark.text_ne_nil
  rw [List.cons_append, List.cons_append, List.append_assoc, List.singleton_append, hopening,
    h _ hrest.bracket, hclosing]
  simp [Function.comp_def]

end Reads

end Token

end StreamQuery
