import StreamQuery.Proofs.Token.Reach
import StreamQuery.Proofs.Token.Value
import StreamQuery.Template.Instantiate

/-! # Typed values in slots

What is found where a slot with a typed value stands: a keyword, perhaps a point in the past, and the
value in quotes with its datatype. Cleaning copies a text, and of each such slot it keeps what it is
without quotes and datatype.
-/

namespace StreamQuery

open Text Lexeme Token

namespace WindowSlot

/-! ### Letters in any case -/

theorem foldCase_cases (c : Char) :
    c = '\u017F' ∧ foldCase c = 's' ∨ c = '\u212A' ∧ foldCase c = 'k' ∨ foldCase c = c.toLower := by
  unfold foldCase
  split
  · next h => exact .inl ⟨h, rfl⟩
  split
  · next h => exact .inr (.inl ⟨h, rfl⟩)
  · exact .inr (.inr rfl)

theorem toLower_eq_or (c : Char) : c.toLower = c ∨ c.isAlpha ∧ c.toLower.isAlpha := by
  have halpha := (LanguageTag.toLower_class c).1
  by_cases hupper : c.isUpper
  · refine .inr ?_
    have hc : c.isAlpha := (Bool.or_eq_true c.isUpper c.isLower).mpr (.inl hupper)
    exact ⟨hc, halpha.trans hc⟩
  · left
    unfold Char.toLower
    exact dif_neg fun hrange => hupper (decide_eq_true hrange)

theorem isAlphabetic_of_isAlpha {c : Char} (h : c.isAlpha) : isAlphabetic c := by
  simp [isAlphabetic, isWordLetter, h]

/-- What has an ASCII letter as its other case begins a word. -/
theorem isAlphabetic_of_foldCase {c : Char} (h : (foldCase c).isAlpha) : isAlphabetic c := by
  rcases foldCase_cases c with ⟨rfl, -⟩ | ⟨rfl, -⟩ | hlower
  · decide +kernel
  · decide +kernel
  · rw [hlower, (LanguageTag.toLower_class c).1] at h
    exact isAlphabetic_of_isAlpha h

/-- A character that is no letter has no other case. -/
theorem eq_of_foldCase {c d : Char} (h : foldCase c = d) (hd : d.isAlpha = false) : c = d := by
  rcases foldCase_cases c with ⟨-, heq⟩ | ⟨-, heq⟩ | heq
  · rw [← h, heq] at hd
    cases hd
  · rw [← h, heq] at hd
    cases hd
  · rcases toLower_eq_or c with hsame | ⟨-, halpha⟩
    · rw [← h, heq, hsame]
    · rw [← heq, h, hd] at halpha
      cases halpha

theorem isPlain_of_isBareChar {c : Char} (h : isBareChar c) : isPlain c := by
  have hcases : (foldCase c).isAlpha ∨ (foldCase c).isDigit ∨ foldCase c ∈ ['.', '+', '-'] := by
    simp only [isBareChar, Char.isAlphanum, Bool.or_eq_true, beq_iff_eq] at h
    rcases h with (((h | h) | h) | h) | h
    · exact .inl h
    · exact .inr (.inl h)
    all_goals exact .inr (.inr (by simp [h]))
  rcases hcases with halpha | hdigit | hmark
  · simp [isPlain, isAlphabetic_of_foldCase halpha]
  · have halpha : (foldCase c).isAlpha = false := by
      have hcode : 48 ≤ (foldCase c).toNat ∧ (foldCase c).toNat ≤ 57 :=
        Char.isDigit_iff_toNat.mp hdigit
      rw [← Bool.not_eq_true, isAlpha_iff_toNat]
      omega
    rw [← eq_of_foldCase (c := c) rfl halpha] at hdigit
    simp [isPlain, hdigit]
  · have hall : ∀ d ∈ ['.', '+', '-'], d.isAlpha = false ∧ isPlain d := by decide
    obtain ⟨halpha, hplain⟩ := hall _ hmark
    rw [← eq_of_foldCase (c := c) rfl halpha] at hplain
    exact hplain

theorem not_isBlank_of_isBareChar {c : Char} (h : isBareChar c) : isBlank c = false := by
  rw [← Bool.not_eq_true]
  intro hblank
  obtain ⟨-, -, -, hlabel, hmark⟩ := plain_of_isBlank hblank
  have hplain := isPlain_of_isBareChar h
  have hplus : c ≠ '+' := by
    rintro rfl
    exact hmark (by decide)
  simp only [isLabelChar, isAlphanumeric, isDecimalDigit, isWordDigit, Bool.or_eq_false_iff] at hlabel
  simp [isPlain, hlabel, hplus] at hplain

/-! ### Slots -/

/-- A slot with a typed value, as it stands in a text. -/
structure TypedSlot where
  keyword : List Char
  /-- The blanks behind the keyword. -/
  space : List Char
  /-- The word `NOW` and a hyphen, with the blanks behind both, or nothing. -/
  past : List Char
  /-- The value between the quotes. -/
  value : List Char
  /-- The closing quote and the datatype behind it. -/
  suffix : List Char

/-- A point in the past, up to its distance. -/
def IsPast (cs : List Char) : Prop :=
  ∃ now before after, cs = now ++ (before ++ '-' :: after) ∧ now.map foldCase = ['n', 'o', 'w'] ∧
    (∀ c ∈ before, isBlank c) ∧ ∀ c ∈ after, isBlank c

theorem IsPast.not_mem_quote {past : List Char} (h : IsPast past) : '"' ∉ past := by
  obtain ⟨now, before, after, rfl, hnow, hbefore, hafter⟩ := h
  intro hmem
  rcases List.mem_append.mp hmem with hmem | hmem
  · have hfold : foldCase '"' ∈ ['n', 'o', 'w'] := hnow ▸ List.mem_map_of_mem hmem
    exact absurd hfold (by decide)
  rcases List.mem_append.mp hmem with hmem | hmem
  · exact absurd (hbefore '"' hmem) (by decide)
  rcases List.mem_cons.mp hmem with hmem | hmem
  · cases hmem
  · exact absurd (hafter '"' hmem) (by decide)

namespace TypedSlot

/-- The text of a slot. -/
def text (slot : TypedSlot) : List Char :=
  slot.keyword ++ (slot.space ++ (slot.past ++ '"' :: (slot.value ++ slot.suffix)))

theorem text_ne_nil (slot : TypedSlot) : slot.text ≠ [] := by simp [text]

/-- The text of a slot without the quotes of its value and without the datatype. -/
def kept (slot : TypedSlot) : List Char :=
  slot.keyword ++ (slot.space ++ (slot.past ++ slot.value))

/-- A slot that is found where it stands. -/
structure Valid (slot : TypedSlot) : Prop where
  keyword : slot.keyword.map foldCase ∈ keywords
  space_ne : slot.space ≠ []
  space : ∀ c ∈ slot.space, isBlank c
  past : slot.past = [] ∨ IsPast slot.past
  value_ne : slot.value ≠ []
  value : ∀ c ∈ slot.value, isBareChar c
  suffix : slot.suffix.map foldCase ∈ datatypeSuffixes

end TypedSlot

variable {cs rest piece : List Char} {n : Nat}

theorem wordLength?_eq_some {word : List Char} (h : wordLength? word cs = some n) :
    ∃ piece rest, cs = piece ++ rest ∧ piece.map foldCase = word ∧ n = piece.length := by
  obtain ⟨htake, hn⟩ := Option.ite_none_right_eq_some.mp h
  cases hn
  refine ⟨cs.take word.length, cs.drop word.length, (List.take_append_drop _ _).symm, htake, ?_⟩
  have hlength := congrArg List.length htake
  rwa [List.length_map, eq_comm] at hlength

theorem exists_blanks (cs : List Char) :
    ∃ space rest, cs = space ++ rest ∧ (∀ c ∈ space, isBlank c) ∧ blanks cs = space.length :=
  ⟨cs.takeWhile isBlank, cs.dropWhile isBlank, List.takeWhile_append_dropWhile.symm,
    fun c hc => mem_takeWhile c hc, rfl⟩

theorem exists_past (cs : List Char) : ∃ past rest, cs = past ++ rest ∧ (past = [] ∨ IsPast past) ∧
    nowLength cs = past.length := by
  unfold nowLength
  split
  · exact ⟨[], cs, rfl, .inl rfl, rfl⟩
  · next n hnow =>
    obtain ⟨now, rest, rfl, hword, rfl⟩ := wordLength?_eq_some hnow
    obtain ⟨before, rest, rfl, hbefore, hlength⟩ := exists_blanks rest
    dsimp only
    rw [List.drop_left, hlength, ← List.length_append, ← List.append_assoc, List.drop_left]
    split
    · next rest =>
      obtain ⟨after, rest, rfl, hafter, hlength⟩ := exists_blanks rest
      refine ⟨now ++ (before ++ '-' :: after), rest, by simp,
        .inr ⟨now, before, after, rfl, hword, hbefore, hafter⟩, ?_⟩
      rw [hlength]
      simp
      omega
    · exact ⟨[], _, rfl, .inl rfl, rfl⟩

/-- What is found is a slot, and what is kept of it is the slot without quotes and datatype. -/
theorem exists_slot {kept : List Char} (hslot : typed? cs = some (kept, n)) :
    ∃ slot : TypedSlot, ∃ rest, slot.Valid ∧ cs = slot.text ++ rest ∧ kept = slot.kept ∧
      n = slot.text.length := by
  obtain ⟨k, hkeyword, h⟩ := Option.bind_eq_some_iff.mp hslot
  obtain ⟨word, hword, hfound⟩ := List.exists_of_findSome?_eq_some hkeyword
  obtain ⟨keyword, rest, rfl, hfold, rfl⟩ := wordLength?_eq_some hfound
  obtain ⟨space, rest, rfl, hspace, hlength⟩ := exists_blanks rest
  obtain ⟨past, rest, rfl, hpast, hnow⟩ := exists_past rest
  dsimp only at h
  rw [List.drop_left, hlength] at h
  have hne : space ≠ [] := by
    rintro rfl
    simp at h
  rw [if_neg (by simpa using hne)] at h
  have hfront : (keyword ++ (space ++ (past ++ rest))).drop (keyword.length + space.length) =
      past ++ rest := by
    rw [← List.append_assoc, ← List.length_append, List.drop_left]
  have hopening : (keyword ++ (space ++ (past ++ rest))).drop
      (keyword.length + space.length + past.length) = rest := by
    rw [← List.drop_drop, hfront, List.drop_left]
  rw [hfront, hnow, hopening] at h
  split at h
  · next rest =>
    split at h
    · cases h
    next hvalue =>
    obtain ⟨m, hsuffix, heq⟩ := Option.bind_eq_some_iff.mp h
    obtain ⟨word', hword', hfound'⟩ := List.exists_of_findSome?_eq_some hsuffix
    obtain ⟨suffix, after, hafter, hfold', rfl⟩ := wordLength?_eq_some hfound'
    cases heq
    have hrest : rest = rest.takeWhile isBareChar ++ (suffix ++ after) := by
      rw [← hafter]
      exact (List.prefix_iff_eq_append.mp (List.takeWhile_prefix _)).symm
    refine ⟨⟨keyword, space, past, rest.takeWhile isBareChar, suffix⟩, after,
      ⟨hfold ▸ hword, hne, hspace, hpast, ?_, mem_takeWhile, hfold' ▸ hword'⟩, ?_, ?_, ?_⟩
    · simpa using hvalue
    · simp only [TypedSlot.text, List.append_assoc, List.cons_append]
      rw [← hrest]
    · have htake : ∀ tail : List Char, (keyword ++ (space ++ (past ++ tail))).take
          (keyword.length + space.length + past.length) = keyword ++ (space ++ past) := by
        intro tail
        rw [← List.append_assoc, ← List.append_assoc, ← List.length_append, ← List.length_append,
          List.append_assoc (keyword ++ space), ← List.append_assoc, List.take_left, List.append_assoc]
      rw [htake]
      simp [TypedSlot.kept]
    · simp [TypedSlot.text]
      omega
  · cases h

/-! ### Cleaning -/

/-- The character in front of what follows a piece of text, itself behind a character. -/
def behind (last : Option Char) (piece : List Char) : Option Char := piece.getLast?.or last

@[simp]
theorem behind_nil (last : Option Char) : behind last [] = last := by simp [behind]

@[simp]
theorem behind_cons (last : Option Char) (c : Char) (piece : List Char) :
    behind last (c :: piece) = behind (some c) piece := by
  cases piece <;> simp [behind, List.getLast?_cons]

theorem behind_append (last : Option Char) (piece others : List Char) :
    behind last (piece ++ others) = behind (behind last piece) others := by
  induction piece generalizing last with
  | nil => simp
  | cons c piece ih => simp [ih]

theorem cleanBehind_skip (last : Option Char) (piece rest : List Char) :
    cleanBehind last piece.length (piece ++ rest) = cleanBehind (behind last piece) 0 rest := by
  induction piece generalizing last with
  | nil => simp
  | cons c piece ih =>
      rw [List.cons_append, List.length_cons, cleanBehind.eq_def, behind_cons]
      exact ih (some c)

/-- A slot gives way to what is kept of it. -/
theorem cleanBehind_slot {last : Option Char} {slot : TypedSlot} (hlast : ¬ last.any isWordChar)
    (hne : slot.text ≠ []) (h : typed? (slot.text ++ rest) = some (slot.kept, slot.text.length)) :
    cleanBehind last 0 (slot.text ++ rest) = slot.kept ++ cleanBehind (behind last slot.text) 0 rest := by
  obtain ⟨c, tail, hcons⟩ := List.exists_cons_of_ne_nil hne
  rw [hcons, List.cons_append] at h ⊢
  rw [cleanBehind.eq_def]
  dsimp only
  rw [if_neg hlast, h]
  simp [cleanBehind_skip]

/-- Where no slot begins, a text is copied. -/
theorem cleanBehind_quiet {last : Option Char}
    (h : ∀ before after, piece = before ++ after → after ≠ [] →
      ¬ (behind last before).any isWordChar → typed? (after ++ rest) = none) :
    cleanBehind last 0 (piece ++ rest) = piece ++ cleanBehind (behind last piece) 0 rest := by
  induction piece generalizing last with
  | nil => simp
  | cons c piece ih =>
      have hrest := @ih (some c) fun before after hpiece hne hlast =>
        h (c :: before) after (by rw [hpiece]; rfl) hne (by simpa using hlast)
      rw [List.cons_append, cleanBehind.eq_def]
      dsimp only
      split
      · rw [hrest, behind_cons]
        rfl
      · next hlast =>
        rw [← List.cons_append, h [] (c :: piece) rfl (by simp) (by simpa using hlast)]
        dsimp only
        rw [hrest, behind_cons]
        rfl

/-! ### The tokens of a slot -/

/-- A piece behind white space is the first segment, and what is left is split behind it. White space
that is no space keeps a text from being split. -/
theorem segmentsOf_next {gap lexeme : List Char} {token : Token} {split : Split}
    (h : segmentsOf (gap ++ (lexeme ++ rest)) = .ok split) (hgap : ∀ c ∈ gap, isBlank c)
    (hfirst : first? (lexeme ++ rest) = some (token, lexeme.length)) (hne : lexeme ≠ []) :
    (∀ c ∈ gap, isSpace c) ∧ ∃ tail : Split, segmentsOf rest = .ok tail ∧
      split = tail.cons ⟨gap, lexeme, token⟩ := by
  induction gap generalizing split with
  | nil =>
      rw [List.nil_append, segmentsOf_lexeme hfirst hne] at h
      obtain ⟨tail, htail, rfl⟩ := map_eq_ok_iff.mp h
      exact ⟨nofun, tail, htail, rfl⟩
  | cons c gap ih =>
      obtain ⟨hc, hgap⟩ := List.forall_mem_cons.mp hgap
      by_cases hspace : isSpace c
      · rw [List.cons_append, segmentsOf_space hspace] at h
        obtain ⟨between, hbetween, rfl⟩ := map_eq_ok_iff.mp h
        obtain ⟨hspaces, tail, htail, rfl⟩ := ih hbetween hgap
        exact ⟨List.forall_mem_cons.mpr ⟨hspace, hspaces⟩, tail, htail, rfl⟩
      · have hmark := (plain_of_isBlank hc).2.2.2.2
        have hcomment : c ≠ '#' := by
          rintro rfl
          cases hc
        obtain ⟨fault, hfault⟩ := @segmentsOf_stuck (gap ++ (lexeme ++ rest)) _
          (not_or.mpr ⟨hspace, hcomment⟩) (first?_whiteSpace hc)
        rw [List.cons_append, hfault] at h
        cases h

theorem isBareWord_of_foldCase {word : List Char} (hne : word ≠ [])
    (h : ∀ c ∈ word, (foldCase c).isAlpha) : IsBareWord word where
  chars c hc := by simp [Lexeme.isNameChar, isAlphanumeric, isAlphabetic_of_foldCase (h c hc)]
  first := by
    obtain ⟨c, cs, rfl⟩ := List.exists_cons_of_ne_nil hne
    simp [isAlphabetic_of_foldCase (h c List.mem_cons_self)]

theorem isIriChar_of_foldCase {c : Char} (h : (foldCase c).isAlpha ∨ isIriChar (foldCase c)) :
    isIriChar c := by
  by_cases halpha : (foldCase c).isAlpha
  · rcases foldCase_cases c with ⟨rfl, -⟩ | ⟨rfl, -⟩ | hlower
    · decide
    · decide
    · rw [hlower, (LanguageTag.toLower_class c).1] at halpha
      exact isIriChar_of_isAlphanum (by simp [Char.isAlphanum, halpha])
  · have hiri := h.resolve_left halpha
    rwa [← eq_of_foldCase (c := c) rfl (Bool.not_eq_true _ ▸ halpha)] at hiri

/-- A word in front of a hyphen is a token, whether or not there are blanks between the two. -/
theorem first?_beforeHyphen {word before rest : List Char} (h : IsBareWord word)
    (hbefore : ∀ c ∈ before, isBlank c) (hcolon : (rest.dropWhile isLabelChar).head? ≠ some ':') :
    first? (word ++ (before ++ (['-'] ++ rest))) = some (.word (String.ofList word), word.length) := by
  have hhead : ∀ c ∈ (before ++ (['-'] ++ rest)).head?, isLabelChar c = false ∨ c = '-' := by
    cases before with
    | nil =>
        rintro c ⟨⟩
        exact .inr rfl
    | cons d before =>
        rintro c ⟨⟩
        exact .inl (plain_of_isBlank (hbefore d List.mem_cons_self)).2.2.2.1
  have hstops : ∀ {allowed : Char → Bool}, (∀ c, allowed c → isLabelChar c) → allowed '-' = false →
      Stops allowed (before ++ (['-'] ++ rest)) := by
    intro allowed hsub hhyphen c hc
    rcases hhead c hc with hlabel | rfl
    · exact Bool.eq_false_iff.mpr fun hallowed => Bool.eq_false_iff.mp hlabel (hsub c hallowed)
    · exact hhyphen
  refine first?_bareWord h (hstops (fun c => isLabelChar_of_isNameChar) (by decide)) ?_ ?_
  · exact hstops (fun c hc => by simp [isLabelChar, eq_of_beq hc]) (by decide)
  · rw [← List.append_assoc]
    refine no_colon_append (fun hmem => ?_) hcolon
    rcases List.mem_append.mp hmem with hmem | hmem
    · exact absurd (hbefore ':' hmem) (by decide)
    · exact absurd hmem (by decide)

/-- The tokens of a point in the past, up to its distance. -/
inductive PastTokens : List Char → List Token → Prop
  | none : PastTokens [] []
  | now {now before after : List Char} (hletters : ∀ c ∈ now, (foldCase c).isAlpha)
      (hword : IsBareWord now) (hbefore : ∀ c ∈ before, isSpace c) (hafter : ∀ c ∈ after, isSpace c) :
      PastTokens (now ++ (before ++ '-' :: after)) [.word (String.ofList now), .punct "-"]

theorem isPlain_of_foldCase {c : Char} (h : (foldCase c).isAlpha) : isPlain c := by
  simp [isPlain, isAlphabetic_of_foldCase h]

theorem PastTokens.plain {past : List Token} (h : PastTokens cs past) :
    ∀ c ∈ cs, isPlain c ∨ isSpace c := by
  cases h with
  | none => nofun
  | now hletters hword hbefore hafter =>
      exact List.forall_mem_append.mpr ⟨fun c hc => .inl (isPlain_of_foldCase (hletters c hc)),
        List.forall_mem_append.mpr ⟨fun c hc => .inr (hbefore c hc), List.forall_mem_cons.mpr
          ⟨.inl (by decide), fun c hc => .inr (hafter c hc)⟩⟩⟩

namespace TypedSlot

variable {slot : TypedSlot}

theorem Valid.letters (h : slot.Valid) : ∀ c ∈ slot.keyword, (foldCase c).isAlpha := by
  have hall : ∀ word ∈ keywords, ∀ c ∈ word, c.isAlpha := by decide
  exact fun c hc => hall _ h.keyword _ (List.mem_map_of_mem hc)

/-- The value of a slot is what is kept of it behind the place of its first quote. -/
theorem Valid.value_eq (h : slot.Valid) {cs rest kept : List Char} (htext : cs = slot.text ++ rest)
    (hkept : slot.kept = kept) : slot.value = kept.drop (cs.takeWhile (· ≠ '"')).length := by
  have hquote : ∀ c ∈ slot.keyword ++ (slot.space ++ slot.past), c ≠ '"' := by
    rintro _ hmem rfl
    rcases List.mem_append.mp hmem with hmem | hmem
    · exact absurd (h.letters '"' hmem) (by decide)
    rcases List.mem_append.mp hmem with hmem | hmem
    · exact absurd (h.space '"' hmem) (by decide)
    rcases h.past with hpast | hpast
    · rw [hpast] at hmem
      cases hmem
    · exact hpast.not_mem_quote hmem
  have hfront : cs.takeWhile (· ≠ '"') = slot.keyword ++ (slot.space ++ slot.past) := by
    have hsplit : cs = slot.keyword ++ (slot.space ++ slot.past) ++
        '"' :: (slot.value ++ slot.suffix ++ rest) := by
      rw [htext, text]
      simp
    rw [hsplit, List.takeWhile_append_of_pos (by simpa using hquote), List.takeWhile_cons_of_neg (by simp),
      List.append_nil]
  rw [hfront, ← hkept, TypedSlot.kept, ← List.append_assoc, ← List.append_assoc, ← List.append_assoc,
    List.drop_left]

theorem Valid.isBareWord (h : slot.Valid) : IsBareWord slot.keyword := by
  have hall : ∀ word ∈ keywords, word ≠ [] := by decide
  exact isBareWord_of_foldCase (by simpa using hall _ h.keyword) h.letters

/-- Behind a value there are the closing quote and the datatype. -/
theorem Valid.exists_datatype (h : slot.Valid) : ∃ body, (∀ c ∈ body, isIriChar c) ∧
    slot.suffix = '"' :: (['^', '^'] ++ ('<' :: body ++ ['>'])) := by
  have hall : ∀ suffix ∈ datatypeSuffixes, ∃ body ∈ [suffix.tail.tail.tail.tail.dropLast],
      suffix = ['"', '^', '^', '<'] ++ (body ++ ['>']) ∧ ∀ c ∈ body, c.isAlpha ∨ isIriChar c := by
    decide
  have hmarks : ∀ {piece marks : List Char}, piece.map foldCase = marks →
      (∀ d ∈ marks, d.isAlpha = false) → piece = marks := by
    rintro piece _ rfl hmarks
    have hsame : ∀ c ∈ piece, foldCase c = id c := fun c hc =>
      (eq_of_foldCase rfl (hmarks _ (List.mem_map_of_mem hc))).symm
    rw [List.map_congr_left hsame, List.map_id]
  obtain ⟨folded, -, hsuffix, hfolded⟩ := hall _ h.suffix
  obtain ⟨opening, others, hsplit, hopening, hothers⟩ := List.map_eq_append_iff.mp hsuffix
  obtain ⟨body, closing, rfl, rfl, hclosing⟩ := List.map_eq_append_iff.mp hothers
  refine ⟨body, fun c hc => isIriChar_of_foldCase (hfolded _ (List.mem_map_of_mem hc)), ?_⟩
  rw [hsplit, hmarks hopening (by decide), hmarks hclosing (by decide)]
  rfl

/-- The keyword of a slot is a token, whatever follows its blanks. -/
theorem Valid.first?_keyword (h : slot.Valid) (rest : List Char) :
    first? (slot.keyword ++ (slot.space ++ rest)) =
      some (.word (String.ofList slot.keyword), slot.keyword.length) := by
  have hstops : Stops isLocalChar (slot.space ++ rest) :=
    Steady.stops_of_isBlank h.space fun hnil => absurd hnil h.space_ne
  refine first?_bareWord h.isBareWord ?_ ?_ (Steady.no_colon_of_stops hstops)
  · exact hstops.mono fun c hc => by simp [isLocalChar, isLabelChar_of_isNameChar hc]
  · exact hstops.mono fun c hc => by simp [isLocalChar, isLabelChar, eq_of_beq hc]

/-- The value of a slot and its quotes are a token. -/
theorem Valid.first?_literal (h : slot.Valid) (rest : List Char) :
    first? ('"' :: slot.value ++ ['"'] ++ '^' :: rest) = some
      (.literal (String.ofList ('"' :: slot.value ++ ['"'])), ('"' :: slot.value ++ ['"']).length) := by
  have hplain : ∀ c ∈ slot.value, c ∉ ['"', '\\', '\n', '\r'] := by
    intro c hc hmem
    have hall : ∀ c ∈ ['"', '\\', '\n', '\r'], isPlain c = false := by decide
    have hbare := isPlain_of_isBareChar (h.value c hc)
    rw [hall c hmem] at hbare
    cases hbare
  have hsingle : ¬ ['"', '"'] <+: slot.value ++ ['"'] := by
    obtain ⟨c, cs, hcons⟩ := List.exists_cons_of_ne_nil h.value_ne
    rw [hcons, List.cons_append, List.cons_prefix_cons]
    rintro ⟨rfl, -⟩
    exact hplain '"' (hcons ▸ List.mem_cons_self) (by decide)
  have hlength : literalLength? ('"' :: slot.value ++ ['"']) =
      some ('"' :: slot.value ++ ['"']).length := by
    rw [List.cons_append, literalLength?_cons (by decide), if_neg hsingle,
      Literal.stringEnd?_plain hplain, stringEnd?_of_isPrefix (List.prefix_refl _) (by decide)]
    simp
    omega
  exact Token.first?_literal hlength (stops_of_head? rfl (by decide))

/-- The token of a value in its quotes. -/
def literal (slot : TypedSlot) : Token := .literal (String.ofList ('"' :: slot.value ++ ['"']))

/-- What stands behind the keyword of a slot. -/
def tail (slot : TypedSlot) : List Char :=
  slot.space ++ (slot.past ++ '"' :: (slot.value ++ slot.suffix))

/-- A value with its datatype is split into three tokens. -/
theorem Valid.segments_value (h : slot.Valid) {gap : List Char} {split : Split}
    (hsplit : segmentsOf (gap ++ ('"' :: (slot.value ++ slot.suffix) ++ rest)) = .ok split)
    (hgap : ∀ c ∈ gap, isBlank c) : (∀ c ∈ gap, isSpace c) ∧ ∃ segments : List Segment, ∃ datatype,
      ∃ tail : Split, segmentsOf rest = .ok tail ∧ split = (segments ++ tail.1, tail.2) ∧
        segments.flatMap Segment.text = gap ++ '"' :: (slot.value ++ slot.suffix) ∧
        segments.map Segment.token = [slot.literal, .datatypeMark, .iri datatype] := by
  obtain ⟨body, hbody, hsuffix⟩ := h.exists_datatype
  have htext : '"' :: (slot.value ++ slot.suffix) ++ rest = '"' :: slot.value ++ ['"'] ++
      (['^', '^'] ++ ('<' :: body ++ '>' :: rest)) := by
    rw [hsuffix]
    simp
  rw [htext] at hsplit
  obtain ⟨hspace, afterLiteral, hliteral, rfl⟩ :=
    segmentsOf_next hsplit hgap (h.first?_literal _) (by simp)
  obtain ⟨-, afterMark, hmark, rfl⟩ := @segmentsOf_next _ [] ['^', '^'] _ _ hliteral
    nofun (first?_datatypeMark _) (by simp)
  have hiri : first? ('<' :: body ++ ['>'] ++ rest) =
      some (.iri (String.ofList body), ('<' :: body ++ ['>']).length) := by
    simpa using first?_iri hbody rest
  obtain ⟨-, tail, htail, rfl⟩ := @segmentsOf_next _ [] ('<' :: body ++ ['>']) _ _
    (by simpa using hmark) nofun hiri (by simp)
  refine ⟨hspace, [⟨gap, '"' :: slot.value ++ ['"'], slot.literal⟩, ⟨[], ['^', '^'], .datatypeMark⟩,
    ⟨[], '<' :: body ++ ['>'], .iri (String.ofList body)⟩], _, tail, htail, rfl, ?_, rfl⟩
  rw [hsuffix]
  simp [Segment.text]

/-- A slot is split into tokens of its own, and then its blanks are spaces. -/
theorem Valid.exists_segments (h : slot.Valid) {split : Split}
    (hsplit : segmentsOf (slot.tail ++ rest) = .ok split) : (∀ c ∈ slot.space, isSpace c) ∧
      ∃ segments : List Segment, ∃ past datatype, ∃ tail : Split, segmentsOf rest = .ok tail ∧
        split = (segments ++ tail.1, tail.2) ∧ segments.flatMap Segment.text = slot.tail ∧
        PastTokens slot.past past ∧
        segments.map Segment.token = past ++ [slot.literal, .datatypeMark, .iri datatype] := by
  rw [TypedSlot.tail, List.append_assoc, List.append_assoc] at hsplit
  rcases h.past with hpast | ⟨now, before, after, hpast, hfold, hbefore, hafter⟩
  · rw [hpast, List.nil_append] at hsplit
    obtain ⟨hspace, segments, datatype, tail, htail, rfl, htext, htokens⟩ :=
      h.segments_value hsplit h.space
    refine ⟨hspace, segments, [], datatype, tail, htail, rfl, ?_, hpast ▸ .none, htokens⟩
    rw [htext, TypedSlot.tail, hpast, List.nil_append]
  · have hne : now ≠ [] := by
      rintro rfl
      cases hfold
    have hnow : ∀ c ∈ now, (foldCase c).isAlpha := by
      have hall : ∀ d ∈ ['n', 'o', 'w'], d.isAlpha := by decide
      exact fun c hc => hall _ (hfold ▸ List.mem_map_of_mem hc)
    have hword := isBareWord_of_foldCase hne hnow
    have hquote : Stops isLocalChar (after ++ ('"' :: (slot.value ++ slot.suffix) ++ rest)) :=
      Steady.stops_of_isBlank hafter fun _ => stops_of_head? rfl (by decide)
    rw [hpast, List.append_assoc, List.append_assoc, List.cons_append, ← List.singleton_append] at hsplit
    obtain ⟨hspace, afterNow, hhyphen, rfl⟩ := segmentsOf_next hsplit h.space
      (first?_beforeHyphen hword hbefore (Steady.no_colon_of_stops hquote)) hne
    obtain ⟨hbefore, afterHyphen, hvalue, rfl⟩ := segmentsOf_next hhyphen hbefore
      (first?_hyphen (hquote.mono fun c hc => by
        simp [isLocalChar, isLabelChar, isAlphanumeric, isDecimalDigit, isWordDigit, hc])) (by simp)
    obtain ⟨hafter, segments, datatype, tail, htail, rfl, htext, htokens⟩ :=
      h.segments_value hvalue hafter
    refine ⟨hspace, ⟨slot.space, now, .word (String.ofList now)⟩ ::
      ⟨before, ['-'], .punct "-"⟩ :: segments, [.word (String.ofList now), .punct "-"], datatype, tail,
      htail, rfl, ?_, ?_, ?_⟩
    · rw [TypedSlot.tail, hpast]
      simp [htext, Segment.text]
    · rw [hpast]
      exact .now hnow hword hbefore hafter
    · simp [htokens]

/-- What is kept of a slot behind its blanks has tokens of its own. -/
theorem Valid.tokens?_value (h : slot.Valid) {past : List Token} (hpast : PastTokens slot.past past) :
    ∃ value, tokens? (slot.past ++ slot.value) = some value ∧ ∀ rest, Stops runsOn rest →
      tokens? (slot.past ++ slot.value ++ rest) = (tokens? rest).map (value ++ ·) :=
  tokens?_plain (List.forall_mem_append.mpr
    ⟨hpast.plain, fun c hc => .inl (isPlain_of_isBareChar (h.value c hc))⟩)

end TypedSlot

end WindowSlot

end StreamQuery
