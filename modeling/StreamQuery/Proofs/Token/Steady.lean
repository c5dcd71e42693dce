import Mathlib.Data.Nat.Init
import StreamQuery.Proofs.Token.Join
import StreamQuery.Proofs.Token.Segment

/-! # Steady text

A token is found by a look at the text behind it. Where a value stands in place of a variable, the
text behind the tokens in front of it changes, though not in a way that they notice. Segments whose
tokens are all found in front of whatever resembles the text behind them are steady.
-/

namespace StreamQuery

open Text Lexeme

namespace Token

/-! ### Texts that begin alike -/

/-- A text that the tokens in front of it do not tell from another one, which has a variable where
this one may have a value. -/
structure Resembles (cs other : List Char) : Prop where
  head : other.head? = cs.head? ∨
    cs.head? = some '?' ∧ ∀ c ∈ other.head?, c ∈ ['?', '<', '"']
  iri : (cs.dropWhile isIriChar).head? ≠ some '>' →
    (other.dropWhile isIriChar).head? ≠ some '>'
  label : (cs.dropWhile isLabelChar).head? ≠ some ':' →
    (other.dropWhile isLabelChar).head? ≠ some ':'

namespace Resembles

variable {cs other others : List Char}

theorem refl (cs : List Char) : Resembles cs cs := ⟨.inl rfl, id, id⟩

theorem trans (h : Resembles cs other) (h' : Resembles other others) : Resembles cs others where
  head := by
    rcases h.head with heq | ⟨hsigil, hvalue⟩
    · rcases h'.head with heq' | ⟨hsigil, hvalue⟩
      · exact .inl (heq'.trans heq)
      · exact .inr ⟨heq ▸ hsigil, hvalue⟩
    · rcases h'.head with heq' | ⟨-, hvalue'⟩
      · exact .inr ⟨hsigil, heq' ▸ hvalue⟩
      · exact .inr ⟨hsigil, hvalue'⟩
  iri hcs := h'.iri (h.iri hcs)
  label hcs := h'.label (h.label hcs)

theorem cons (c : Char) (h : Resembles cs other) : Resembles (c :: cs) (c :: other) where
  head := .inl rfl
  iri := by
    cases hc : isIriChar c with
    | true => simpa [hc] using h.iri
    | false => simp [hc]
  label := by
    cases hc : isLabelChar c with
    | true => simpa [hc] using h.label
    | false => simp [hc]

theorem append (piece : List Char) (h : Resembles cs other) :
    Resembles (piece ++ cs) (piece ++ other) := by
  induction piece with
  | nil => exact h
  | cons c piece ih => exact ih.cons c

theorem boundary (h : Resembles cs other) (hcs : Boundary cs) : Boundary other where
  head := by
    rcases h.head with heq | ⟨hsigil, -⟩
    · rw [heq]
      exact hcs.head
    · exact absurd (hcs.head '?' hsigil) (by decide)
  open_iri := h.iri hcs.open_iri

theorem stops (h : Resembles cs other) {allowed : Char → Bool} (hcs : Stops allowed cs)
    (hvalue : ∀ c ∈ ['?', '<', '"'], allowed c = false) : Stops allowed other := by
  rcases h.head with heq | ⟨-, hhead⟩
  · rw [Stops, heq]
    exact hcs
  · exact fun c hc => hvalue c (hhead c hc)

end Resembles

end Token

/-! ### Steady segments -/

namespace Split

/-- Segments whose tokens are found in front of whatever resembles the text behind them, with a
boundary behind every variable. -/
inductive Steady : Split → Prop
  | nil : Steady ([], [])
  | space {split : Split} {c : Char} (hc : Token.isSpace c) (h : Steady split) :
      Steady (split.behind c)
  | token {split : Split} {token : Token} (hlexical : token.Lexical)
      (hfound : ∀ other, Token.Resembles split.text other →
        Token.first? (token.text.toList ++ other) = some (token, token.text.toList.length))
      (hvariable : ∀ name, token = .variable name → Token.Boundary split.text)
      (h : Steady split) : Steady (split.cons ⟨[], token.text.toList, token⟩)

variable {split : Split}

/-- A token in front of a boundary. -/
theorem Steady.lead {t : Token} (ht : t.Lexical) (hcaret : t ≠ .punct "^")
    (hboundary : Token.Boundary split.text) (h : split.Steady) :
    (split.cons ⟨[], t.text.toList, t⟩).Steady :=
  .token ht (fun _ hother => ht.first?_append (hother.boundary hboundary)
    fun heq => absurd heq hcaret) (fun _ _ => hboundary) h

/-- Steady segments are those of their own text. -/
theorem Steady.settled (h : split.Steady) : split.Settled := by
  induction h with
  | nil => exact settled_nil
  | space hc _ ih => exact ih.behind hc
  | token hlexical hfound _ _ ih => exact ih.cons (hfound _ (.refl _)) hlexical.text_ne_nil

end Split

namespace Token

/-- A text that is split into steady segments, if it is split at all. -/
def Steady (cs : List Char) : Prop := ∀ split : Split, segmentsOf cs = .ok split → split.Steady

namespace Steady

variable {rest : List Char} {t : Token} {c : Char}

theorem nil : Steady [] := by
  intro split hsplit
  rw [segmentsOf_nil] at hsplit
  cases hsplit
  exact .nil

theorem space (hc : isSpace c) (h : Steady rest) : Steady (c :: rest) := by
  intro split hsplit
  rw [segmentsOf_space hc] at hsplit
  obtain ⟨tail, htail, rfl⟩ := map_eq_ok_iff.mp hsplit
  exact .space hc (h tail htail)

theorem lexeme (hlexical : t.Lexical) (hfound : ∀ other, Resembles rest other →
      first? (t.text.toList ++ other) = some (t, t.text.toList.length))
    (hvariable : ∀ name, t = .variable name → Boundary rest) (h : Steady rest) :
    Steady (t.text.toList ++ rest) := by
  intro split hsplit
  rw [segmentsOf_lexeme (hfound rest (.refl rest)) hlexical.text_ne_nil] at hsplit
  obtain ⟨tail, htail, rfl⟩ := map_eq_ok_iff.mp hsplit
  rw [← text_of_segmentsOf htail] at hfound hvariable
  exact .token hlexical hfound hvariable (h tail htail)

/-- A token in front of a boundary. -/
theorem token (hlexical : t.Lexical) (hcaret : t ≠ .punct "^") (hrest : Boundary rest)
    (h : Steady rest) : Steady (t.text.toList ++ rest) :=
  h.lexeme hlexical (fun _ hother => hlexical.first?_append (hother.boundary hrest)
    fun heq => absurd heq hcaret) fun _ _ => hrest

theorem word {word : String} (hlexical : (Token.word word).Lexical)
    (hname : Stops Lexeme.isNameChar rest) (hdot : Stops (· == '.') rest)
    (hcolon : (rest.dropWhile isLabelChar).head? ≠ some ':') (h : Steady rest) :
    Steady (word.toList ++ rest) := by
  refine h.lexeme (t := .word word) hlexical (fun other hother => ?_) nofun
  have hname' : Stops Lexeme.isNameChar other := hother.stops hname (by decide)
  have hdot' : Stops (· == '.') other := hother.stops hdot (by decide)
  cases hlexical with
  | fractional hrun =>
      have hpart : Stops isDurationPart other := by
        intro d hd
        have hd1 := hname' d hd
        have hd2 := hdot' d hd
        simp_all [Lexeme.isNameChar, isDurationPart, Char.isAlphanum, isAlphanumeric,
          isAlphabetic, isWordLetter, isDecimalDigit, isWordDigit]
      simpa [Token.text] using first?_fractional hrun hpart (hother.label hcolon)
  | word hword => simpa [Token.text] using first?_bareWord hword hname' hdot' (hother.label hcolon)

theorem hyphen (hdigit : Stops Char.isDigit rest) (h : Steady rest) : Steady ('-' :: rest) := by
  have hmark : (Token.punct "-").Lexical := .punct (by decide)
  exact h.lexeme hmark (fun _ hother => first?_hyphen (hother.stops hdigit (by decide))) nofun

theorem datatypeMark (h : Steady rest) : Steady ('^' :: '^' :: rest) :=
  h.lexeme .datatypeMark (fun other _ => first?_datatypeMark other) nofun

theorem first?_caret (hrest : rest.head? ≠ some '^') :
    first? ('^' :: rest) = some (.punct "^", 1) := by
  have hnot : ¬ ['^', '^'] <+: '^' :: rest := by
    rintro ⟨others, hothers⟩
    exact hrest (by simpa using (congrArg (fun cs => (cs.drop 1).head?) hothers).symm)
  rw [(BeginsWithMark.of_mem (by decide) rest).first?_eq, if_neg (after?_isSome_iff.not.mpr hnot)]
  rfl

theorem caret (hrest : rest.head? ≠ some '^') (h : Steady rest) : Steady ('^' :: rest) := by
  have hmark : (Token.punct "^").Lexical := .punct (by decide)
  refine h.lexeme hmark (fun other hother => ?_) nofun
  have hhead : other.head? ≠ some '^' := by
    rcases hother.head with heq | ⟨-, hvalue⟩
    · rwa [heq]
    · exact fun hhead => absurd (hvalue '^' hhead) (by decide)
  exact first?_caret hhead

theorem bracket (h : Steady rest) : Steady ('[' :: rest) := by
  have hmark : (Token.punct "[").Lexical := .punct (by decide)
  refine h.lexeme hmark (fun other _ => ?_) nofun
  have hfirst : first? ('[' :: other) = some (.punct "[", 1) := by
    rw [(BeginsWithMark.of_mem (by decide) other).first?_eq]
    rfl
  exact hfirst

/-- White space that separates no tokens keeps a text from being split. -/
theorem blank (hc : isBlank c) (h : Steady rest) : Steady (c :: rest) := by
  by_cases hspace : isSpace c
  · exact h.space hspace
  · intro split hsplit
    have hcomment : c ≠ '#' := by
      rintro rfl
      exact absurd hc (by decide)
    obtain ⟨fault, hfault⟩ := segmentsOf_stuck (fun hor => hor.elim hspace hcomment)
      (first?_whiteSpace hc)
    rw [hfault] at hsplit
    cases hsplit

theorem stops_of_isBlank {cs : List Char} (hcs : ∀ c ∈ cs, isBlank c)
    (hrest : cs = [] → Stops isLocalChar rest) : Stops isLocalChar (cs ++ rest) := by
  cases cs with
  | nil => exact hrest rfl
  | cons c cs =>
      obtain ⟨-, -, -, hlabel, hmark⟩ := plain_of_isBlank (hcs c List.mem_cons_self)
      refine stops_of_head? rfl ?_
      have hcolon : c ≠ ':' := (ne_of_mem_of_not_mem (by decide) hmark).symm
      have hpercent : c ≠ '%' := by
        rintro rfl
        exact absurd (hcs '%' List.mem_cons_self) (by decide)
      simp [isLocalChar, hlabel, hcolon, hpercent]

theorem no_colon_of_stops (h : Stops isLocalChar rest) :
    (rest.dropWhile isLabelChar).head? ≠ some ':' := by
  cases rest with
  | nil => nofun
  | cons c rest =>
      have hc := h c rfl
      simp only [isLocalChar, Bool.or_eq_false_iff, beq_eq_false_iff_ne] at hc
      exact no_colon_of_head hc.1.1 hc.1.2

theorem blanks {cs : List Char} (hcs : ∀ c ∈ cs, isBlank c) (h : Steady rest) :
    Steady (cs ++ rest) := by
  induction cs with
  | nil => exact h
  | cons c cs ih =>
      obtain ⟨hc, hcs⟩ := List.forall_mem_cons.mp hcs
      exact (ih hcs).blank hc

end Steady

/-! ### Carets

Carets are taken two at a time, from the left, however they were written.
-/

/-- A text that is steady behind the carets at its beginning. -/
def Firm (cs : List Char) : Prop := Steady (cs.dropWhile (· == '^'))

namespace Firm

variable {cs rest : List Char}

theorem of_steady (h : Steady cs) (hcs : cs.head? ≠ some '^') : Firm cs := by
  have hdrop : cs.dropWhile (· == '^') = cs := by
    cases cs with
    | nil => rfl
    | cons c cs => simpa using hcs
  rwa [Firm, hdrop]

theorem caret_iff : Firm ('^' :: cs) ↔ Firm cs := by simp [Firm]

theorem replicate_steady (n : Nat) (hrest : rest.head? ≠ some '^') (h : Steady rest) :
    Steady (List.replicate n '^' ++ rest) := by
  induction n using Nat.twoStepInduction with
  | zero => exact h
  | one => exact h.caret hrest
  | more n ih _ => exact ih.datatypeMark

theorem steady (h : Firm cs) : Steady cs := by
  have hhead : (cs.dropWhile (· == '^')).head? ≠ some '^' := by
    intro hhead
    have := List.head?_dropWhile_not (· == '^') cs
    simp [hhead] at this
  have htake : cs.takeWhile (· == '^') = List.replicate (cs.takeWhile (· == '^')).length '^' :=
    List.eq_replicate_of_mem fun c hc => by simpa using mem_takeWhile c hc
  rw [← List.takeWhile_append_dropWhile (p := (· == '^')) (l := cs), htake]
  exact replicate_steady _ hhead h

end Firm

/-! ### Words in front of hyphens -/

/-- Words with a hyphen behind each. -/
def hyphenated (words : List (List Char)) : List Char := words.flatMap (· ++ ['-'])

section Hyphenated

variable {words : List (List Char)} {rest : List Char}

theorem hyphenated_cons (word : List Char) (words : List (List Char)) :
    hyphenated (word :: words) ++ rest = word ++ '-' :: (hyphenated words ++ rest) := by
  simp [hyphenated]

theorem hyphenated_concat (words : List (List Char)) (word : List Char) :
    hyphenated (words ++ [word]) ++ rest = hyphenated words ++ (word ++ '-' :: rest) := by
  simp [hyphenated]

variable (hwords : ∀ word ∈ words, IsBareWord word)

include hwords

theorem not_colon_mem_hyphenated : ':' ∉ hyphenated words := by
  intro hmem
  obtain ⟨word, hword, hmem⟩ := List.mem_flatMap.mp hmem
  rcases List.mem_append.mp hmem with hmem | hmem
  · exact absurd ((hwords word hword).chars ':' hmem) (by decide)
  · exact absurd hmem (by decide)

theorem head_hyphenated (hne : words ≠ []) : ∃ c tail, hyphenated words = c :: tail ∧
    isOpener c = false ∧ isNumberStart c = false ∧ Lexeme.isNameChar c := by
  obtain ⟨word, others, rfl⟩ := List.exists_cons_of_ne_nil hne
  have hword := hwords word List.mem_cons_self
  obtain ⟨c, tail, rfl, hopener, hnumber⟩ := hword.head
  exact ⟨c, _, rfl, hopener, hnumber, hword.chars c List.mem_cons_self⟩

theorem head_hyphenated_append (hne : words ≠ []) :
    (hyphenated words ++ rest).head? ≠ some '^' := by
  obtain ⟨c, tail, hhead, -, -, hname⟩ := head_hyphenated hwords hne
  rw [hhead]
  rintro ⟨⟩
  exact absurd hname (by decide)

theorem stops_digit_hyphenated (hdigit : Stops Char.isDigit rest) :
    Stops Char.isDigit (hyphenated words ++ rest) := by
  cases words with
  | nil => exact hdigit
  | cons word words =>
      obtain ⟨c, tail, hhead, -, hnumber, -⟩ := head_hyphenated hwords (by simp)
      simp only [isNumberStart, Bool.or_eq_false_iff] at hnumber
      rw [hhead]
      exact stops_of_head? rfl hnumber.1.1

theorem Steady.hyphenated (hdigit : Stops Char.isDigit rest)
    (hcolon : (rest.dropWhile isLabelChar).head? ≠ some ':') (h : Steady rest) :
    Steady (Token.hyphenated words ++ rest) := by
  induction words with
  | nil => exact h
  | cons word words ih =>
      obtain ⟨hword, hothers⟩ := List.forall_mem_cons.mp hwords
      have hbehind : ((Token.hyphenated words ++ rest).dropWhile isLabelChar).head? ≠ some ':' :=
        no_colon_append (not_colon_mem_hyphenated hothers) hcolon
      have hhyphen := (ih hothers).hyphen (stops_digit_hyphenated hothers hdigit)
      have hsteady := hhyphen.word (.word hword) (stops_of_head? rfl (by decide))
        (stops_of_head? rfl (by decide)) (no_colon_append (show ':' ∉ ['-'] by decide) hbehind)
      rw [hyphenated_cons]
      rwa [String.toList_ofList] at hsteady

/-- Words with hyphens and a prefixed name are a prefixed name together. -/
theorem IsPrefixed.hyphenated {label part : List Char} (h : IsPrefixed label part)
    (hne : words ≠ []) : IsPrefixed (Token.hyphenated words ++ label) part where
  label_chars := by
    refine List.forall_mem_append.mpr ⟨fun c hc => ?_, h.label_chars⟩
    obtain ⟨word, hword, hc⟩ := List.mem_flatMap.mp hc
    rcases List.mem_append.mp hc with hc | hc
    · exact isLabelChar_of_isNameChar ((hwords word hword).chars c hc)
    · rw [List.mem_singleton.mp hc]
      decide
  label_valid := by
    obtain ⟨c, tail, hhead, -, hnumber, hname⟩ := head_hyphenated hwords hne
    have hdot : c ≠ '.' := by
      rintro rfl
      exact absurd hname (by decide)
    have hlast : (Token.hyphenated words ++ label).getLast? ≠ some '.' := by
      have hvalid := h.label_valid
      simp only [isLabel, Bool.and_eq_true, bne_iff_ne] at hvalid
      cases label with
      | nil =>
          obtain ⟨others, word, rfl⟩ := List.eq_nil_or_concat' words |>.resolve_left hne
          have := @hyphenated_concat [] others word
          rw [List.append_nil] at this
          simp [this]
      | cons d label =>
          rw [List.getLast?_append_of_ne_nil _ (by simp)]
          exact hvalid.2
    rw [isLabel, Bool.and_eq_true, bne_iff_ne]
    refine ⟨?_, hlast⟩
    simp only [isNumberStart, Bool.or_eq_false_iff] at hnumber
    simp [hhead, hnumber, hdot]
  part_chars := h.part_chars
  part_end := h.part_end

end Hyphenated

/-! ### Joined tokens -/

/-- Only marks of carets begin with a caret. -/
theorem Lexical.eq_of_caret {t : Token} (h : t.Lexical) {cs : List Char}
    (htext : t.text.toList = '^' :: cs) : t = .datatypeMark ∨ t = .punct "^" := by
  by_cases hcaret : t = .punct "^"
  · exact .inr hcaret
  have hfirst := h.first?_append .nil fun heq => absurd heq hcaret
  rw [htext, List.append_nil, (BeginsWithMark.of_mem (by decide) cs).first?_eq] at hfirst
  split at hfirst
  · exact .inl (Prod.mk.inj (Option.some.inj hfirst)).1.symm
  · exact .inr (Prod.mk.inj (Option.some.inj hfirst)).1.symm

/-- An unsigned number behind a hyphen is a number. -/
theorem numberLength?_hyphen {cs : List Char} {n : Nat} (h : numberLength? cs = some n)
    (hfuses : (Token.number (String.ofList cs)).fusesBehindHyphen) :
    numberLength? ('-' :: cs) = some (n + 1) := by
  have hsign : sign cs = 0 := by
    rw [fusesBehindHyphen, String.toList_ofList] at hfuses
    unfold sign
    split
    · simp at hfuses
    · simp at hfuses
    · rfl
  obtain ⟨s, d, f, e, hs, hd, hpos, hf, he, hn⟩ := numberLength?_eq_some_iff.mp h
  obtain rfl : 0 = s := hsign.symm.trans hs
  rw [Nat.zero_add] at hf he hn
  refine numberLength?_eq_some_iff.mpr ⟨1, d, f, e, rfl, hd, hpos, ?_, ?_, by omega⟩
  · rw [Nat.add_comm, List.drop_succ_cons, hf]
  · rw [Nat.add_assoc, Nat.add_comm, List.drop_succ_cons, he]

section Joined

variable {words : List (List Char)} {tail : List Char} {t : Token}
  (hwords : ∀ word ∈ words, IsBareWord word)

include hwords

/-- A prefixed name takes in the words and hyphens in front of it. -/
theorem Steady.hyphenated_prefixed {label part : List Char} (hne : words ≠ [])
    (hpart : IsPrefixed label part) (htail : Boundary tail) (h : Steady tail) :
    Steady (Token.hyphenated words ++ (label ++ ':' :: part ++ tail)) := by
  have hlabel : Token.hyphenated words ++ label ≠ ['_'] := by
    intro heq
    have hmem : '-' ∈ Token.hyphenated words ++ label := by
      obtain ⟨word, others, rfl⟩ := List.exists_cons_of_ne_nil hne
      simp [Token.hyphenated]
    rw [heq] at hmem
    exact absurd hmem (by decide)
  have hsteady := h.token (.prefixed (IsPrefixed.hyphenated hwords hpart hne)
    fun heq => absurd heq hlabel) (by rintro ⟨⟩) htail
  simpa [Token.text] using hsteady

/-- A number without a sign takes in the last hyphen in front of it. -/
theorem Steady.hyphenated_number {cs : List Char} (hne : words ≠ [])
    (hnumber : numberLength? cs = some cs.length)
    (hfuses : (Token.number (String.ofList cs)).fusesBehindHyphen) (htail : Boundary tail)
    (h : Steady tail) : Steady (Token.hyphenated words ++ (cs ++ tail)) := by
  obtain ⟨others, word, rfl⟩ := List.eq_nil_or_concat' words |>.resolve_left hne
  obtain ⟨hothers, hword⟩ := List.forall_mem_append.mp hwords
  have hword := hword word (List.mem_singleton_self word)
  have hsigned : (Token.number (String.ofList ('-' :: cs))).Lexical :=
    .number (numberLength?_hyphen hnumber hfuses)
  have hcolon : ':' ∉ '-' :: cs := by
    have hmem := mem_take_numberLength? hnumber
    rw [List.take_length] at hmem
    simp only [List.mem_cons, Char.reduceEq, false_or]
    exact fun hc => absurd (hmem ':' hc) (by decide)
  have hsteady := h.token hsigned (by rintro ⟨⟩) htail
  rw [Token.text, String.toList_ofList] at hsteady
  have hbehind := hsteady.word (.word hword) (stops_of_head? rfl (by decide))
    (stops_of_head? rfl (by decide)) (no_colon_append hcolon htail.no_colon)
  rw [String.toList_ofList] at hbehind
  obtain ⟨c, others', hhead, -, hnumber⟩ := hword.head
  simp only [isNumberStart, Bool.or_eq_false_iff] at hnumber
  have hwhole := hbehind.hyphenated hothers
    (by rw [hhead]; exact stops_of_head? rfl hnumber.1.1)
    (no_colon_append (fun hmem => absurd (hword.chars ':' hmem) (by decide))
      (no_colon_append hcolon htail.no_colon))
  rw [hyphenated_concat]
  exact hwhole

/-- What runs together with words and hyphens in front of it is one token with them, or with the
last hyphen. -/
theorem Steady.fused (hne : words ≠ []) (ht : t.Lexical) (hfuses : t.fusesBehindHyphen)
    (htail : Boundary tail) (h : Steady tail) :
    Steady (Token.hyphenated words ++ (t.text.toList ++ tail)) := by
  cases ht with
  | number hnumber =>
      simpa [Token.text] using h.hyphenated_number hwords hne hnumber hfuses htail
  | @blank label hlabel =>
      -- the name of a blank node is a prefixed name with the label `_`
      have hpart : IsPrefixed ['_'] label := {
        label_chars := by decide
        label_valid := by decide
        part_chars := fun c hc => by
          have hchar := hlabel c hc
          simp only [isBlankChar, Bool.or_eq_true] at hchar
          rcases hchar with (h | h) | h <;> simp [isLocalChar, isLabelChar, h]
        part_end := fun hlast => absurd (hlabel '.' (List.mem_of_getLast? hlast)) (by decide) }
      simpa [Token.text] using h.hyphenated_prefixed hwords hne hpart htail
  | «prefixed» hpart => simpa [Token.text] using h.hyphenated_prefixed hwords hne hpart htail
  | _ => cases hfuses

theorem Firm.hyphenated (hdigit : Stops Char.isDigit tail)
    (hcolon : (tail.dropWhile isLabelChar).head? ≠ some ':') (h : Firm tail) :
    Firm (Token.hyphenated words ++ tail) := by
  by_cases hne : words = []
  · rwa [hne]
  · exact .of_steady (h.steady.hyphenated hwords hdigit hcolon) (head_hyphenated_append hwords hne)

/-- A token in front of text that is firm, behind words with hyphens that are joined to it. -/
theorem Firm.lead (ht : t.Lexical) (htail : t = .datatypeMark ∨ Boundary tail) (h : Firm tail) :
    Firm (Token.hyphenated words ++ (t.text.toList ++ tail)) := by
  have htoken : Firm (t.text.toList ++ tail) := by
    by_cases hcaret : t = .datatypeMark ∨ t = .punct "^"
    · rcases hcaret with rfl | rfl
      · exact caret_iff.mpr (caret_iff.mpr h)
      · exact caret_iff.mpr h
    · rw [not_or] at hcaret
      refine .of_steady (h.steady.token ht hcaret.2 (htail.resolve_left hcaret.1)) ?_
      obtain ⟨c, cs, htext⟩ := List.exists_cons_of_ne_nil ht.text_ne_nil
      rw [htext]
      rintro ⟨⟩
      exact (ht.eq_of_caret htext).elim hcaret.1 hcaret.2
  by_cases hne : words = []
  · rwa [hne]
  by_cases hfuses : t.fusesBehindHyphen
  · have hboundary : Boundary tail := by
      rcases htail with rfl | hboundary
      · cases hfuses
      · exact hboundary
    exact .of_steady (h.steady.fused hwords hne ht hfuses hboundary)
      (head_hyphenated_append hwords hne)
  · have hapart := Bool.eq_false_iff.mpr hfuses
    refine htoken.hyphenated hwords (ht.stops_digit hapart tail) ?_
    rcases ht.begins_or_no_colon hapart with ⟨c, cs, htext, hlabel, hcolon⟩ | ⟨hmark, hcolon⟩
    · rw [htext]
      exact no_colon_of_head hlabel hcolon
    · exact no_colon_append hcolon (htail.resolve_left hmark).no_colon

end Joined

/-! ### Pieces of text -/

/-- A piece of text that keeps steady what follows apart from it. -/
def Keeps (cs : List Char) : Prop := ∀ rest, Separated rest → Steady rest → Steady (cs ++ rest)

namespace Keeps

variable {cs ds : List Char} {ts : List Token} {t : Token}

theorem nil : Keeps [] := fun _ _ h => h

theorem token (ht : t.Lexical) : Keeps t.text.toList := by
  intro rest hrest h
  by_cases hcaret : t = .punct "^"
  · rw [hcaret]
    exact h.caret hrest.no_caret
  · exact h.token ht hcaret hrest.boundary

theorem append (hcs : Keeps cs) (hds : Keeps ds) : Keeps (cs ++ ' ' :: ds) := by
  intro rest hrest h
  rw [List.append_assoc, List.cons_append]
  exact hcs _ (.space _) ((hds rest hrest h).space rfl)

/-- A piece of text in square brackets. -/
theorem bracketed (hcs : Keeps cs) : Keeps ('[' :: cs ++ [']']) := by
  intro rest hrest h
  have hclosing : Steady (']' :: rest) :=
    h.token (t := .punct "]") (.punct (by decide)) nofun hrest.boundary
  rw [List.append_assoc]
  exact (hcs _ hrest.bracket hclosing).bracket

end Keeps

/-- Tokens that are written as one line, behind words with hyphens that are joined to them. A word
`NOW` is not told apart from the hyphen behind it until the token behind both is known. -/
theorem Firm.joinAfter {ts : List Token} {rest : List Char} (hrest : Separated rest)
    (h : Steady rest) {words : List (List Char)} {before last : Option Token}
    (hts : ∀ t ∈ ts, t.Lexical) (hwords : ∀ word ∈ words, IsBareWord word)
    (hjoined : words ≠ [] → ∃ hyphen, last = some hyphen ∧ IsNowHyphen before hyphen)
    (hnow : words = [] → ∀ t ∈ last, t.isWord "NOW" → ts.head? ≠ some (.punct "-")) :
    Firm (Token.hyphenated words ++ (Token.joinAfter before last ts ++ rest)) := by
  cases ts with
  | nil =>
      exact (Firm.of_steady h hrest.no_caret).hyphenated hwords
        (hrest.boundary.stops (by decide)) hrest.boundary.no_colon
  | cons t ts =>
      obtain ⟨ht, htail⟩ := List.forall_mem_cons.mp hts
      -- a space may stand in front of the token only if no words do
      suffices hlead : Firm (Token.hyphenated words ++
          (t.text.toList ++ (Token.joinAfter last (some t) ts ++ rest))) by
        rw [joinAfter_cons]
        by_cases hne : words = []
        · split
          · simpa using hlead
          · subst hne
            have hspaced := hlead.steady.space (c := ' ') rfl
            refine .of_steady ?_ (by simp [Token.hyphenated])
            simpa [Token.hyphenated] using hspaced
        · obtain ⟨hyphen, rfl, hhyphen⟩ := hjoined hne
          rw [if_pos (isJoined_of_isNowHyphen hhyphen t)]
          simpa using hlead
      by_cases hhead : t.isWord "NOW" ∧ ts.head? = some (.punct "-")
      · obtain ⟨hword, hhead⟩ := hhead
        obtain ⟨us, rfl⟩ := List.head?_eq_some_iff.mp hhead
        obtain ⟨hbare, htext⟩ := ht.isBareWord hword
        have hus := (List.forall_mem_cons.mp htail).2
        have hjoin : isJoined last (some t) (.punct "-") := by simp [isJoined, hword, isPunct]
        have hwords' : ∀ word ∈ words ++ [t.text.toList], IsBareWord word :=
          List.forall_mem_append.mpr ⟨hwords, by simpa using hbare⟩
        have hrec := @Firm.joinAfter _ _ hrest h _ (some t) (some (.punct "-")) hus hwords'
          (fun _ => ⟨_, rfl, rfl, hword⟩) (by simp)
        rw [hyphenated_concat] at hrec
        rw [joinAfter_cons, if_pos hjoin]
        exact hrec
      · have hrec := @Firm.joinAfter _ _ hrest h [] last (some t) htail
          (by simp) (by simp) (by rintro - u ⟨⟩ hword hminus; exact hhead ⟨hword, hminus⟩)
        have hhyphen : ¬ IsNowHyphen last t := by
          rintro ⟨rfl, hany⟩
          obtain ⟨now, rfl, hword⟩ := (Option.any_eq_true _ _).mp hany
          by_cases hne : words = []
          · exact hnow hne now rfl hword rfl
          · obtain ⟨hyphen, heq, rfl, -⟩ := hjoined hne
            cases heq
            cases hword
        refine Firm.lead hwords ht ?_ hrec
        by_cases hmark : t = .datatypeMark
        · exact .inl hmark
        · exact .inr (boundary_joinAfter htail hrest hmark hhyphen
            fun hword hminus => hhead ⟨hword, hminus⟩)
termination_by ts.length

theorem Keeps.join {ts : List Token} (hts : ∀ t ∈ ts, t.Lexical) : Keeps (Token.join ts).toList := by
  intro rest hrest h
  rw [Token.join, String.toList_ofList]
  exact (@Firm.joinAfter _ _ hrest h [] _ _ hts (by simp) (by simp) (by simp)).steady

end Token

end StreamQuery
