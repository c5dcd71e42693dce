import StreamQuery.Proofs.Token.Segment

/-! # How far tokens look

A token is found by a look at the text behind it, though not past the next space. So where text is
changed behind a space, the tokens in front of that space stay as they are.
-/

namespace StreamQuery

open Text Lexeme

namespace Token

/-! ### The lengths of tokens -/

/-- A character that a word, a number or a name in front of it can take in. -/
def runsOn (c : Char) : Bool := isLocalChar c || c == '+'

/-- A space is in no token but a literal. -/
theorem stops_space {c : Char} (h : isSpace c) {allowed : Char → Bool}
    (hall : ∀ c ∈ [' ', '\t', '\r', '\n'], allowed c = false) (rest : List Char) :
    Stops allowed (c :: rest) := by
  refine stops_of_head? rfl (hall c ?_)
  simpa [isSpace, or_assoc] using h

section

variable {rest : List Char} (h : Stops runsOn rest) (cs : List Char)

include h

theorem stops_nameChar : Stops Lexeme.isNameChar rest :=
  h.mono fun c hc => by simp [runsOn, isLocalChar, isLabelChar_of_isNameChar hc]

theorem stops_digit : Stops Char.isDigit rest :=
  h.mono fun c hc => by
    simp [runsOn, isLocalChar, isLabelChar, isAlphanumeric, isDecimalDigit, isWordDigit, hc]

theorem stops_char {d : Char} (hd : runsOn d) : Stops (· == d) rest :=
  h.mono fun c hc => by rwa [eq_of_beq hc]

theorem sign_stops : sign (cs ++ rest) = sign cs := by
  cases cs with
  | nil =>
      rw [List.nil_append]
      unfold sign
      split
      · exact absurd (h '+' rfl) (by decide)
      · exact absurd (h '-' rfl) (by decide)
      · rfl
  | cons d cs =>
      by_cases hd : d = '+'
      · simp [sign, hd]
      by_cases hd' : d = '-'
      · simp [sign, hd']
      · simp [sign, hd, hd']

omit h in
theorem sign_le : sign cs ≤ cs.length := by
  unfold sign
  split <;> simp

theorem fraction_stops : fraction (cs ++ rest) = fraction cs := by
  cases cs with
  | nil =>
      refine fraction_of_stops (h.mono fun c hc => ?_)
      simp only [isNumberPart, Bool.or_eq_true, beq_iff_eq] at hc
      rcases hc with ((hc | rfl) | rfl) | rfl
      · simp [runsOn, isLocalChar, isLabelChar, isAlphanumeric, isDecimalDigit, isWordDigit, hc]
      all_goals decide
  | cons d cs =>
      by_cases hd : d = '.'
      · subst hd
        rw [List.cons_append, fraction, count_append (stops_digit h), fraction]
      · simp [fraction, hd]

theorem exponent_stops : exponent (cs ++ rest) = exponent cs := by
  cases cs with
  | nil =>
      have hfirst : ∀ c ∈ rest.head?, c ≠ 'e' ∧ c ≠ 'E' := by
        intro c hc
        constructor
        · rintro rfl
          exact absurd (h 'e' hc) (by decide)
        · rintro rfl
          exact absurd (h 'E' hc) (by decide)
      rw [List.nil_append]
      unfold exponent
      split
      · exact absurd rfl (hfirst 'e' rfl).1
      · exact absurd rfl (hfirst 'E' rfl).2
      · rfl
  | cons d cs =>
      have hdigits : count Char.isDigit ((cs ++ rest).drop (sign cs)) =
          count Char.isDigit (cs.drop (sign cs)) := by
        rw [List.drop_append_of_le_length (sign_le cs)]
        exact count_append (stops_digit h)
      by_cases hd : d = 'e' ∨ d = 'E'
      · rcases hd with rfl | rfl
        · rw [List.cons_append, exponent, exponent, sign_stops h, hdigits]
        · rw [List.cons_append, exponent, exponent, sign_stops h, hdigits]
      · rw [not_or] at hd
        simp [exponent, hd]

theorem numberLength?_stops : numberLength? (cs ++ rest) = numberLength? cs := by
  have hsign := sign_le cs
  unfold numberLength?
  simp only [sign_stops h]
  rw [List.drop_append_of_le_length hsign, count1?, count_append (stops_digit h), ← count1?]
  cases hn : count1? Char.isDigit (cs.drop (sign cs)) with
  | none => rfl
  | some n =>
      obtain ⟨hcount, -⟩ := count1?_eq_some_iff.mp hn
      have hdigits := count_le Char.isDigit (cs.drop (sign cs))
      rw [hcount, List.length_drop] at hdigits
      have hfraction := fraction_le (cs.drop (sign cs + n))
      rw [List.length_drop] at hfraction
      simp only [Option.bind_eq_bind, Option.bind_some]
      rw [List.drop_append_of_le_length (by omega), fraction_stops h,
        List.drop_append_of_le_length (by omega), exponent_stops h]

theorem blankLength?_stops : blankLength? (cs ++ rest) = blankLength? cs := by
  match cs with
  | [] => exact blankLength?_eq_none (stops_char h (by decide))
  | [d] =>
      have hnone : blankLength? [d] = none :=
        blankLength?_eq_none_iff.mpr fun tail heq => absurd (List.cons_eq_cons.mp heq).2 (by simp)
      rw [hnone, blankLength?_eq_none_iff]
      rintro tail heq
      obtain ⟨rfl, rfl⟩ := List.cons_eq_cons.mp heq
      exact absurd (h ':' rfl) (by decide)
  | d :: e :: cs =>
      have hcount : count1? isBlankChar (cs ++ rest) = count1? isBlankChar cs := by
        have hstops : Stops isBlankChar rest := h.mono fun c hc => by
          simp only [isBlankChar, Bool.or_eq_true] at hc
          rcases hc with (hc | hc) | hc <;> simp [runsOn, isLocalChar, isLabelChar, hc]
        rw [count1?, count_append hstops, count1?]
      by_cases hmark : d = '_' ∧ e = ':'
      · obtain ⟨rfl, rfl⟩ := hmark
        rw [List.cons_append, List.cons_append, blankLength?_cons, blankLength?_cons, hcount]
      · rw [blankLength?_eq_none_iff.mpr, blankLength?_eq_none_iff.mpr]
        · rintro tail ⟨⟩
          exact absurd ⟨rfl, rfl⟩ hmark
        · rintro tail ⟨⟩
          exact absurd ⟨rfl, rfl⟩ hmark

theorem prefixedLength?_stops : prefixedLength? (cs ++ rest) = prefixedLength? cs := by
  have hlabel : (cs ++ rest).takeWhile isLabelChar = cs.takeWhile isLabelChar :=
    takeWhile_append_of_stops (h.mono fun c hc => by simp [runsOn, isLocalChar, hc])
  unfold prefixedLength?
  dsimp only
  rw [hlabel, List.drop_append_of_le_length (List.takeWhile_prefix _).length_le]
  cases cs.drop (cs.takeWhile isLabelChar).length with
  | nil =>
      rw [List.nil_append]
      split
      · exact absurd (h ':' rfl) (by decide)
      · rfl
  | cons d tail =>
      have hpart : (tail ++ rest).takeWhile isLocalChar = tail.takeWhile isLocalChar :=
        takeWhile_append_of_stops (h.mono fun c hc => by simp [runsOn, hc])
      by_cases hd : d = ':'
      · simp [hd, hpart]
      · simp [hd]

theorem fractionalDurationLength?_stops :
    fractionalDurationLength? (cs ++ rest) = fractionalDurationLength? cs := by
  have hrun : (cs ++ rest).takeWhile isDurationPart = cs.takeWhile isDurationPart :=
    takeWhile_append_of_stops (h.mono fun c hc => by
      simp [runsOn, isLocalChar, isLabelChar_of_isDurationPart hc])
  rw [fractionalDurationLength?_eq, hrun, fractionalDurationLength?_eq]

theorem wordLength?_stops : wordLength? (cs ++ rest) = wordLength? cs := by
  cases cs with
  | nil =>
      refine wordLength?_eq_none ((stops_nameChar h).mono fun c hc => ?_)
      simp only [Bool.or_eq_true] at hc
      rcases hc with hc | hc <;> simp [Lexeme.isNameChar, isAlphanumeric, hc]
  | cons d cs =>
      rw [wordLength?, count1?, count_append (stops_nameChar h), ← count1?]
      rfl

end

/-- What begins a text begins it in front of another character already. -/
theorem isPrefix_behind {c : Char} {mark cs rest : List Char} (h : c ∉ mark) :
    mark <+: cs ++ c :: rest ↔ mark <+: cs := by
  induction mark generalizing cs with
  | nil => simp
  | cons m mark ih =>
      obtain ⟨hm, hmark⟩ := not_or.mp (List.mem_cons.not.mp h)
      cases cs with
      | nil => simp [List.cons_prefix_cons, Ne.symm hm]
      | cons d cs => simp [List.cons_prefix_cons, ih hmark]

/-- A mark of two characters is told from the two. -/
theorem punctLength?_cons_cons (d e : Char) (cs : List Char) : punctLength? (d :: e :: cs) =
    if (d, e) ∈ [('&', '&'), ('|', '|'), ('!', '='), ('<', '='), ('>', '=')] then some 2
    else punctLength? [d] := by
  unfold punctLength?
  split
  case h_6 heq =>
    obtain ⟨rfl, rfl⟩ := List.cons_eq_cons.mp heq
    simp_all
  all_goals simp_all

section

variable {c : Char} (hc : isSpace c) (cs rest : List Char)

include hc

theorem runsOn_space : Stops runsOn (c :: rest) := stops_space hc (by decide) rest

theorem iriLength?_space : iriLength? (cs ++ c :: rest) = iriLength? cs := by
  cases cs with
  | nil => exact (openers_eq_none _ (stops_space hc (by decide) rest)).1
  | cons d cs =>
      by_cases hd : d = '<'
      · subst hd
        have hclose : c ≠ '>' := by
          rintro rfl
          cases hc
        have hcount : count isIriChar (cs ++ c :: rest) = count isIriChar cs :=
          count_append (stops_space hc (by decide) rest)
        rw [List.cons_append, iriLength?, iriLength?, hcount,
          List.drop_append_of_le_length (count_le isIriChar cs), List.head?_append]
        cases (cs.drop (count isIriChar cs)).head? <;> simp [hclose]
      · simp [iriLength?, hd]

theorem variableLength?_space : variableLength? (cs ++ c :: rest) = variableLength? cs := by
  cases cs with
  | nil => exact (openers_eq_none _ (stops_space hc (by decide) rest)).2.1
  | cons d cs =>
      have hcount : count1? Lexeme.isNameChar (cs ++ c :: rest) = count1? Lexeme.isNameChar cs := by
        rw [count1?, count_append (stops_nameChar (runsOn_space hc rest)), count1?]
      by_cases hd : d = '?' ∨ d = '$'
      · rcases hd with rfl | rfl
        · rw [List.cons_append, variableLength?, hcount, variableLength?]
        · rw [List.cons_append, variableLength?, hcount, variableLength?]
      · rw [not_or] at hd
        simp [variableLength?, hd]

theorem languageLength?_space : languageLength? (cs ++ c :: rest) = languageLength? cs := by
  cases cs with
  | nil => exact (openers_eq_none _ (stops_space hc (by decide) rest)).2.2.2
  | cons d cs =>
      by_cases hd : d = '@'
      · subst hd
        rw [List.cons_append, languageLength?, languageLength?, count1?,
          count_append (stops_space hc (by decide) rest), ← count1?]
        cases hn : count1? Char.isAlpha cs with
        | none => rfl
        | some n =>
            obtain ⟨hcount, -⟩ := count1?_eq_some_iff.mp hn
            have hle := count_le Char.isAlpha cs
            simp only [Option.bind_eq_bind, Option.bind_some]
            rw [List.drop_append_of_le_length (hcount ▸ hle),
              count_append (stops_space hc (by decide) rest)]
      · simp [languageLength?, hd]

theorem isSome_after?_space : (after? ['^', '^'] (cs ++ c :: rest)).isSome =
    (after? ['^', '^'] cs).isSome := by
  have hcaret : c ∉ ['^', '^'] := by
    intro hmem
    simp only [List.mem_cons, List.not_mem_nil, or_false, or_self] at hmem
    subst hmem
    cases hc
  rw [Bool.eq_iff_iff, after?_isSome_iff, after?_isSome_iff, isPrefix_behind hcaret]

theorem punctLength?_space : punctLength? (cs ++ c :: rest) = punctLength? cs := by
  obtain ⟨hpair, hmark⟩ : c ∉ ['&', '|', '='] ∧ punctLength? [c] = none := by
    have hall : ∀ c ∈ [' ', '\t', '\r', '\n'], c ∉ ['&', '|', '='] ∧ punctLength? [c] = none := by
      decide
    exact hall c (by simpa [isSpace, or_assoc] using hc)
  simp only [List.mem_cons, List.not_mem_nil, or_false, not_or] at hpair
  cases cs with
  | nil =>
      cases rest with
      | nil => exact hmark
      | cons d rest =>
          rw [List.nil_append, punctLength?_cons_cons, hmark, if_neg]
          · rfl
          · rintro hmem
            simp only [List.mem_cons, Prod.mk.injEq, List.not_mem_nil, or_false] at hmem
            rcases hmem with ⟨rfl, -⟩ | ⟨rfl, -⟩ | ⟨rfl, -⟩ | ⟨rfl, -⟩ | ⟨rfl, -⟩ <;>
              simp_all [isSpace]
  | cons d cs =>
      cases cs with
      | nil =>
          rw [List.singleton_append, punctLength?_cons_cons, if_neg]
          simp [hpair]
      | cons e cs =>
          rw [List.cons_append, List.cons_append, punctLength?_cons_cons, punctLength?_cons_cons]

end

/-! ### Literals -/

section

variable {c : Char} {cs rest : List Char} {n : Nat}

theorem stringEnd?_behind {quote : List Char} {multiline : Bool} (hne : quote ≠ [])
    (h : stringEnd? quote multiline (cs ++ rest) = some n) (hn : n ≤ cs.length) (rest' : List Char) :
    stringEnd? quote multiline (cs ++ rest') = some n := by
  have hend := stringEnd?_take_append (cs.drop n ++ rest') hne h
  rwa [List.take_append_of_le_length hn, ← List.append_assoc, List.take_append_drop] at hend

/-- A literal that ends in front of a space ends there whatever follows. -/
theorem literalLength?_behind (hc : isSpace c) (h : literalLength? (cs ++ c :: rest) = some n)
    (hn : n ≤ cs.length) (rest' : List Char) : literalLength? (cs ++ c :: rest') = some n := by
  obtain ⟨q, tail, hq, hcons⟩ := exists_of_literalLength? h
  have hquote : c ∉ [q, q] := by
    intro hmem
    obtain rfl : c = q := by simpa using hmem
    rw [@stops_space _ hc isQuote (by decide) [] c rfl] at hq
    cases hq
  cases cs with
  | nil =>
      cases hcons
      exact absurd List.mem_cons_self hquote
  | cons d body =>
      cases hcons
      rw [List.cons_append, literalLength?_cons hq] at h ⊢
      simp only [isPrefix_behind hquote] at h ⊢
      split at h
      · next htriple =>
        obtain ⟨m, hm, rfl⟩ := Option.map_eq_some_iff.mp h
        have hbody : 2 ≤ body.length := htriple.length_le
        rw [List.drop_append_of_le_length hbody] at hm
        rw [if_pos htriple, List.drop_append_of_le_length hbody]
        refine Option.map_eq_some_iff.mpr ⟨m, stringEnd?_behind (by simp) hm ?_ _, rfl⟩
        simp only [List.length_drop, List.length_cons] at hn ⊢
        omega
      · next hsingle =>
        obtain ⟨m, hm, rfl⟩ := Option.map_eq_some_iff.mp h
        rw [if_neg hsingle]
        exact Option.map_eq_some_iff.mpr
          ⟨m, stringEnd?_behind (by simp) hm (Nat.le_of_succ_le_succ hn) _, rfl⟩

theorem literalLength?_of_stops (h : Stops isQuote cs) : literalLength? cs = none := by
  cases hlength : literalLength? cs with
  | none => rfl
  | some n =>
      obtain ⟨q, tail, hq, rfl⟩ := exists_of_literalLength? hlength
      rw [h q rfl] at hq
      cases hq

/-- A quote begins a literal, or no token at all. -/
theorem first?_quote {q : Char} (hq : isQuote q) (tail : List Char) : first? (q :: tail) =
    (literalLength? (q :: tail)).map fun n => (.literal (String.ofList ((q :: tail).take n)), n) := by
  obtain ⟨hnumber, hlabel, hcolon, hat, hP, hcaret⟩ : isNumberStart q = false ∧
      isLabelChar q = false ∧ q ≠ ':' ∧ q ≠ '@' ∧ q ≠ 'P' ∧ q ≠ '^' := by
    rcases isQuote_iff.mp hq with rfl | rfl <;> decide
  have hiri : iriLength? (q :: tail) = none := by
    rcases isQuote_iff.mp hq with rfl | rfl <;> rfl
  have hvariable : variableLength? (q :: tail) = none := by
    rcases isQuote_iff.mp hq with rfl | rfl <;> rfl
  cases hliteral : literalLength? (q :: tail) with
  | some n =>
      rw [first?, hiri, hvariable, hliteral]
      rfl
  | none =>
      have hbegins : BeginsWithMark (q :: tail) := {
        iri := hiri
        sigil := hvariable
        literal := hliteral
        language := by simp [languageLength?, hat]
        number := numberLength?_eq_none (stops_of_head? rfl hnumber)
        blank := blankLength?_eq_none_of_stops (stops_of_head? rfl hlabel)
        label := prefixedLength?_eq_none (by simp [hlabel, hcolon])
        fractional := fractionalDurationLength?_eq_none_of_head (by simp [hP])
        word := wordLength?_eq_none (stops_of_head? rfl (by
          rcases isQuote_iff.mp hq with rfl | rfl <;> decide)) }
      have hpunct : punctLength? (q :: tail) = none := by
        rcases isQuote_iff.mp hq with rfl | rfl <;> rfl
      rw [hbegins.first?_eq, hpunct]
      simp [after?, hcaret.symm]

end

/-! ### Tokens -/

/-- Two texts at whose start tokens have the same lengths. -/
structure SameLengths (cs cs' : List Char) : Prop where
  iri : iriLength? cs' = iriLength? cs
  sigil : variableLength? cs' = variableLength? cs
  literal : literalLength? cs' = literalLength? cs
  language : languageLength? cs' = languageLength? cs
  number : numberLength? cs' = numberLength? cs
  blank : blankLength? cs' = blankLength? cs
  label : prefixedLength? cs' = prefixedLength? cs
  fractional : fractionalDurationLength? cs' = fractionalDurationLength? cs
  word : wordLength? cs' = wordLength? cs
  caret : (after? ['^', '^'] cs').isSome = (after? ['^', '^'] cs).isSome
  mark : punctLength? cs' = punctLength? cs

variable {c : Char} {cs cs' rest : List Char} {n : Nat} {token : Token}

theorem SameLengths.first? (hsame : SameLengths cs cs') (htake : cs'.take n = cs.take n)
    (h : first? cs = some (token, n)) : first? cs' = some (token, n) := by
  have hless : cs'.take (n - 1) = cs.take (n - 1) := by
    have hpieces := congrArg (List.take (n - 1)) htake
    rwa [List.take_take, List.take_take, Nat.min_eq_left (Nat.sub_le n 1)] at hpieces
  unfold Token.first? at h ⊢
  simp only [hsame.iri, hsame.sigil, hsame.literal, hsame.language, hsame.number, hsame.blank,
    hsame.label, hsame.fractional, hsame.word, hsame.caret, hsame.mark]
  repeat' split at h
  all_goals cases h <;> simp_all

/-- A token that ends in front of a space is found there whatever follows the space. -/
theorem first?_behind (hc : isSpace c) (h : first? (cs ++ c :: rest) = some (token, n))
    (hn : n ≤ cs.length) (rest' : List Char) : first? (cs ++ c :: rest') = some (token, n) := by
  have htake : (cs ++ c :: rest').take n = (cs ++ c :: rest).take n := by
    rw [List.take_append_of_le_length hn, List.take_append_of_le_length hn]
  cases cs with
  | nil =>
      rw [List.nil_append, first?_gap (.inl hc)] at h
      cases h
  | cons d cs =>
      by_cases hquote : isQuote d
      · rw [List.cons_append, first?_quote hquote] at h ⊢
        obtain ⟨m, hm, heq⟩ := Option.map_eq_some_iff.mp h
        cases heq
        have hlength := literalLength?_behind hc hm hn rest'
        rw [List.cons_append] at hlength
        rw [List.cons_append, List.cons_append] at htake
        rw [hlength, Option.map_some, htake]
      · have hliteral : ∀ others, literalLength? (d :: cs ++ others) = none := fun others =>
          literalLength?_of_stops (stops_of_head? rfl (Bool.not_eq_true _ ▸ hquote))
        have hstops : ∀ others, Stops runsOn (c :: others) := runsOn_space hc
        refine SameLengths.first? ⟨?_, ?_, ?_, ?_, ?_, ?_, ?_, ?_, ?_, ?_, ?_⟩ htake h
        · rw [iriLength?_space hc, iriLength?_space hc]
        · rw [variableLength?_space hc, variableLength?_space hc]
        · rw [hliteral, hliteral]
        · rw [languageLength?_space hc, languageLength?_space hc]
        · rw [numberLength?_stops (hstops _), numberLength?_stops (hstops _)]
        · rw [blankLength?_stops (hstops _), blankLength?_stops (hstops _)]
        · rw [prefixedLength?_stops (hstops _), prefixedLength?_stops (hstops _)]
        · rw [fractionalDurationLength?_stops (hstops _), fractionalDurationLength?_stops (hstops _)]
        · rw [wordLength?_stops (hstops _), wordLength?_stops (hstops _)]
        · rw [isSome_after?_space hc, isSome_after?_space hc]
        · rw [punctLength?_space hc, punctLength?_space hc]

/-! ### Texts that are changed behind a space -/

/-- Two texts that are the same up to a space, or altogether. -/
inductive Alike : List Char → List Char → Prop
  | refl (cs : List Char) : Alike cs cs
  | behind (piece : List Char) {c : Char} (hc : isSpace c) (cs cs' : List Char) :
      Alike (piece ++ c :: cs) (piece ++ c :: cs')

namespace Alike

theorem append (h : Alike cs cs') (front : List Char) : Alike (front ++ cs) (front ++ cs') := by
  cases h with
  | refl => exact .refl _
  | behind piece hc cs cs' =>
      rw [← List.append_assoc, ← List.append_assoc]
      exact .behind (front ++ piece) hc cs cs'

theorem head? (h : Alike cs cs') : cs'.head? = cs.head? := by
  cases h with
  | refl => rfl
  | behind piece => cases piece <;> rfl

theorem stops (h : Alike cs cs') {allowed : Char → Bool} (hstops : Stops allowed cs) :
    Stops allowed cs' := by
  intro c hc
  rw [h.head?] at hc
  exact hstops c hc

theorem first? {rest' lexeme : List Char} (h : Alike rest rest')
    (hfirst : Token.first? (lexeme ++ rest) = some (token, lexeme.length)) :
    Token.first? (lexeme ++ rest') = some (token, lexeme.length) := by
  cases h with
  | refl => exact hfirst
  | behind piece hc cs cs' =>
      rw [← List.append_assoc] at hfirst ⊢
      exact first?_behind hc hfirst (by simp) cs'

end Alike

/-- Spaces and comments end where they did if what follows them begins a token as before. -/
theorem gap_append {space ds ds' : List Char} {inComment : Bool} (hne : ds ≠ []) (hgap : gap false ds' = 0)
    (h : gap inComment (space ++ ds) = space.length) : gap inComment (space ++ ds') = space.length := by
  induction space generalizing inComment with
  | nil =>
      obtain ⟨d, ds, rfl⟩ := List.exists_cons_of_ne_nil hne
      cases inComment with
      | false => exact hgap
      | true => cases h
  | cons c space ih =>
      simp only [List.cons_append, gap, List.length_cons] at h ⊢
      split at h
      · next hcomment => rw [if_pos hcomment, ih (Nat.succ.inj h)]
      · next hcomment =>
        rw [if_neg hcomment]
        split at h
        · next hspace => rw [if_pos hspace, ih (Nat.succ.inj h)]
        · next hspace =>
          rw [if_neg hspace]
          split at h
          · next hbegin => rw [if_pos hbegin, ih (Nat.succ.inj h)]
          · cases h

/-- A text is split at its first token, which stands behind a gap. -/
theorem tokens?_behind_gap {space lexeme : List Char}
    (hgap : gap false (space ++ (lexeme ++ rest)) = space.length)
    (hfirst : first? (lexeme ++ rest) = some (token, lexeme.length)) (hne : lexeme ≠ []) :
    tokens? (space ++ (lexeme ++ rest)) = (tokens? rest).map (token :: ·) := by
  obtain ⟨c, tail, rfl⟩ := List.exists_cons_of_ne_nil hne
  rw [tokens?_eq, hgap, List.drop_left, List.cons_append]
  rw [List.cons_append, List.length_cons] at hfirst
  dsimp only
  rw [hfirst]
  dsimp only
  rw [List.drop_left]

/-- The first token of a text stays as it is if the rest is changed behind a space only. -/
theorem Alike.tokens? {rest' space lexeme : List Char} (h : Alike rest rest')
    (hgap : gap false (space ++ (lexeme ++ rest)) = space.length)
    (hfirst : Token.first? (lexeme ++ rest) = some (token, lexeme.length)) (hne : lexeme ≠ []) :
    Token.tokens? (space ++ (lexeme ++ rest')) = (Token.tokens? rest').map (token :: ·) := by
  have hfirst' := h.first? hfirst
  exact tokens?_behind_gap (gap_append (by simp [hne]) (gap_eq_zero_of_first? hfirst') hgap) hfirst' hne

theorem tokens?_isSpace (hc : isSpace c) (cs : List Char) : tokens? (c :: cs) = tokens? cs := by
  have hgap : gap false (c :: cs) = gap false cs + 1 := by simp [gap, hc]
  rw [tokens?_eq (c :: cs), tokens?_eq cs, hgap, List.drop_succ_cons]

theorem tokens?_spaces_append (h : ∀ c ∈ cs, isSpace c) (rest : List Char) :
    tokens? (cs ++ rest) = tokens? rest := by
  induction cs with
  | nil => rfl
  | cons c cs ih =>
      obtain ⟨hc, hcs⟩ := List.forall_mem_cons.mp h
      rw [List.cons_append, tokens?_isSpace hc, ih hcs]

/-- A mark among the tokens of a text stands in the text. -/
theorem subset_of_punct_mem {ts : List Token} (h : tokens? cs = some ts) {mark : String}
    (hmark : .punct mark ∈ ts) : mark.toList ⊆ cs := by
  unfold tokens? at h
  cases hsplit : segmentsOf cs with
  | error fault =>
      rw [hsplit] at h
      cases h
  | ok split =>
      rw [hsplit] at h
      cases h
      obtain ⟨segment, hsegment, htoken⟩ := List.mem_map.mp hmark
      have hlexeme : segment.lexeme = mark.toList := by
        rcases (faithful_of_segmentsOf hsplit segment hsegment).lexeme with hlexeme | ⟨name, hname, -⟩
        · rw [hlexeme, htoken, Token.text]
        · rw [htoken] at hname
          cases hname
      intro d hd
      rw [← text_of_segmentsOf hsplit]
      refine List.mem_append_left _ (List.mem_flatMap.mpr ⟨segment, hsegment, ?_⟩)
      exact List.mem_append_right _ (hlexeme ▸ hd)

/-! ### Values without quotes -/

/-- A character that begins a word or a number, or stands in one. -/
def isPlain (c : Char) : Bool := isAlphabetic c || c.isDigit || c == '.' || c == '+' || c == '-'

theorem lengths_eq_none (h : first? cs = none) :
    numberLength? cs = none ∧ wordLength? cs = none ∧ punctLength? cs = none := by
  unfold first? at h
  repeat' split at h
  all_goals simp_all [Option.eq_none_iff_forall_ne_some]

/-- A token begins wherever a word or a number can begin. -/
theorem first?_isPlain (hc : isPlain c) (cs : List Char) : first? (c :: cs) ≠ none := by
  intro hnone
  obtain ⟨hnumber, hword, hpunct⟩ := lengths_eq_none hnone
  simp only [isPlain, Bool.or_eq_true, beq_iff_eq] at hc
  rcases hc with (((hc | hc) | rfl) | rfl) | rfl
  · rw [wordLength?, if_pos (by simp [hc]), count1?_eq_none_iff] at hword
    have hname := hword c rfl
    simp [Lexeme.isNameChar, isAlphanumeric, hc] at hname
  · have hsign : sign (c :: cs) = 0 := by
      unfold sign
      split
      · next heq =>
        cases heq
        exact absurd hc (by decide)
      · next heq =>
        cases heq
        exact absurd hc (by decide)
      · rfl
    have hcount : count Char.isDigit ((c :: cs).drop (sign (c :: cs))) ≠ 0 := by
      rw [hsign, List.drop_zero, Ne, count_eq_zero_iff]
      intro hstops
      rw [hstops c rfl] at hc
      cases hc
    have hsome := numberLength?_eq_some_iff.mpr ⟨_, _, _, _, rfl, rfl, hcount, rfl, rfl, rfl⟩
    rw [hnumber] at hsome
    cases hsome
  all_goals
    unfold punctLength? at hpunct
    simp at hpunct

/-- Words and numbers do not take in what follows them if it cannot continue them. -/
theorem first?_plain (hc : isPlain c) (hrest : Stops runsOn rest)
    (h : first? (c :: cs) = some (token, n)) : first? (c :: cs ++ rest) = some (token, n) := by
  have hopener : isOpener c = false := by
    refine not_opener isPlain hc ?_
    decide
  have hnone : ∀ others, _ := fun others => openers_eq_none (c :: others) (stops_of_head? rfl hopener)
  have hpair : ∀ d ∈ ['&', '|', '!', '<', '>', '^'], c ≠ d := by
    rintro d hd rfl
    have hall : ∀ d ∈ ['&', '|', '!', '<', '>', '^'], isPlain d = false := by decide
    rw [hall c hd] at hc
    cases hc
  have hmark : ∀ others, punctLength? (c :: others) = punctLength? [c] := by
    intro others
    cases others with
    | nil => rfl
    | cons d others =>
        rw [punctLength?_cons_cons, if_neg]
        simp [hpair]
  have htake : (c :: cs ++ rest).take n = (c :: cs).take n :=
    List.take_append_of_le_length (lexeme_of_first? h).1
  refine SameLengths.first? ⟨?_, ?_, ?_, ?_, numberLength?_stops hrest _, blankLength?_stops hrest _,
    prefixedLength?_stops hrest _, fractionalDurationLength?_stops hrest _, wordLength?_stops hrest _,
    ?_, ?_⟩ htake h
  · rw [List.cons_append, (hnone _).1, (hnone _).1]
  · rw [List.cons_append, (hnone _).2.1, (hnone _).2.1]
  · rw [List.cons_append, (hnone _).2.2.1, (hnone _).2.2.1]
  · rw [List.cons_append, (hnone _).2.2.2, (hnone _).2.2.2]
  · have hcaret : c ≠ '^' := hpair '^' (by decide)
    simp [after?, hcaret.symm]
  · rw [List.cons_append, hmark, hmark cs]

/-- A piece of words, numbers and spaces has tokens of its own, if what follows it cannot continue
them. -/
theorem tokens?_plain (h : ∀ c ∈ cs, isPlain c ∨ isSpace c) : ∃ ts, tokens? cs = some ts ∧
    ∀ rest, Stops runsOn rest → tokens? (cs ++ rest) = (tokens? rest).map (ts ++ ·) := by
  -- each step takes one space or one token off the front, so the induction is on the length
  obtain ⟨k, hk⟩ : ∃ k, cs.length ≤ k := ⟨_, Nat.le_refl _⟩
  induction k generalizing cs with
  | zero =>
      obtain rfl := List.eq_nil_of_length_eq_zero (Nat.le_zero.mp hk)
      exact ⟨[], tokens?_nil, fun rest _ => by simp⟩
  | succ k ih =>
      cases cs with
      | nil => exact ⟨[], tokens?_nil, fun rest _ => by simp⟩
      | cons c cs =>
          obtain ⟨hc, hcs⟩ := List.forall_mem_cons.mp h
          rcases hc with hc | hc
          · obtain ⟨⟨token, n⟩, hfirst⟩ := Option.ne_none_iff_exists'.mp (first?_isPlain hc cs)
            cases n with
            | zero =>
                rcases (lexeme_of_first? hfirst).2 with htext | ⟨name, -, hname⟩
                · exact absurd htext.symm (lexical_of_first? hfirst).text_ne_nil
                · cases hname
            | succ n =>
                obtain ⟨ts, hts, hrun⟩ := @ih (cs.drop n)
                  (fun d hd => hcs d (List.mem_of_mem_drop hd)) (by
                    simp only [List.length_cons] at hk
                    rw [List.length_drop]
                    omega)
                refine ⟨token :: ts, ?_, fun rest hrest => ?_⟩
                · rw [tokens?_cons hfirst, List.drop_succ_cons, hts]
                  rfl
                · have hle : n ≤ cs.length := Nat.le_of_succ_le_succ (lexeme_of_first? hfirst).1
                  rw [tokens?_cons (first?_plain hc hrest hfirst), List.cons_append, List.drop_succ_cons,
                    List.drop_append_of_le_length hle, hrun rest hrest, Option.map_map]
                  rfl
          · obtain ⟨ts, hts, hrun⟩ := ih hcs (Nat.le_of_succ_le_succ hk)
            refine ⟨ts, by rw [tokens?_isSpace hc, hts], fun rest hrest => ?_⟩
            rw [List.cons_append, tokens?_isSpace hc, hrun rest hrest]

end Token

end StreamQuery
