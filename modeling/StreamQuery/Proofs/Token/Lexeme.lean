import StreamQuery.Token.Lexer
import Mathlib.Data.List.TakeWhile

/-! # Lexemes

For each kind of token, what the text of one looks like, and that its length is found again when
the text is cut out and continued by something that cannot belong to it.
-/

namespace StreamQuery

open Text

/-! ### Letters and digits -/

theorem isAlpha_iff_toNat {c : Char} :
    c.isAlpha ↔ (65 ≤ c.toNat ∧ c.toNat ≤ 90) ∨ (97 ≤ c.toNat ∧ c.toNat ≤ 122) := by
  change (decide (c.val ≥ 'A'.val ∧ c.val ≤ 'Z'.val) ||
    (decide (c.val ≥ 'a'.val) && decide (c.val ≤ 'z'.val))) = true ↔ _
  simp [UInt32.le_iff_toNat_le]

theorem isAlphanum_iff_toNat {c : Char} : c.isAlphanum ↔
    ((65 ≤ c.toNat ∧ c.toNat ≤ 90) ∨ (97 ≤ c.toNat ∧ c.toNat ≤ 122)) ∨
      (48 ≤ c.toNat ∧ c.toNat ≤ 57) := by
  rw [Char.isAlphanum, Bool.or_eq_true, isAlpha_iff_toNat, Char.isDigit_iff_toNat]
  rfl

namespace Lexeme

variable {allowed : Char → Bool} {cs rest : List Char} {n : Nat}

/-- A text that does not begin with a character of a class. -/
def Stops (allowed : Char → Bool) (rest : List Char) : Prop := ∀ c ∈ rest.head?, allowed c = false

instance (allowed : Char → Bool) (rest : List Char) : Decidable (Stops allowed rest) :=
  decidable_of_iff (rest.head?.all fun c => !allowed c) (by cases rest <;> simp [Stops])

theorem stops_nil (allowed : Char → Bool) : Stops allowed [] := nofun

theorem stops_of_head? {c : Char} (hhead : cs.head? = some c) (h : allowed c = false) :
    Stops allowed cs := by
  intro d hd
  obtain rfl := Option.some_inj.mp (hhead.symm.trans hd)
  exact h

theorem Stops.mono {allowed' : Char → Bool} (h : Stops allowed rest)
    (hsub : ∀ c, allowed' c → allowed c) : Stops allowed' rest := fun c hc =>
  Bool.eq_false_iff.mpr fun hc' => Bool.eq_false_iff.mp (h c hc) (hsub c hc')

theorem takeWhile_of_stops (h : Stops allowed rest) : rest.takeWhile allowed = [] := by
  cases rest with
  | nil => rfl
  | cons c rest => exact List.takeWhile_cons_of_neg (by rw [h c rfl]; exact Bool.false_ne_true)

theorem takeWhile_append_of_stops (h : Stops allowed rest) :
    (cs ++ rest).takeWhile allowed = cs.takeWhile allowed := by
  induction cs with
  | nil => cases rest <;> simp_all [Stops]
  | cons c cs ih => simp [List.takeWhile_cons, ih]

theorem count_append (h : Stops allowed rest) : count allowed (cs ++ rest) = count allowed cs := by
  rw [count, takeWhile_append_of_stops h, count]

theorem count_le (allowed : Char → Bool) (cs : List Char) : count allowed cs ≤ cs.length :=
  (List.takeWhile_prefix allowed).length_le

theorem drop_count : cs.drop (count allowed cs) = cs.dropWhile allowed := by
  induction cs with
  | nil => rfl
  | cons c cs ih => cases hc : allowed c <;> simp_all [count]

theorem take_count : cs.take (count allowed cs) = cs.takeWhile allowed := by
  induction cs with
  | nil => rfl
  | cons c cs ih => cases hc : allowed c <;> simp_all [count]

/-- A text cut behind its run of a class, and then continued by what is not in the class, has the
same run. -/
theorem count_take_append (hn : count allowed cs ≤ n) (h : Stops allowed rest) :
    count allowed (cs.take n ++ rest) = count allowed cs := by
  rw [count_append h, count, ← List.take_takeWhile, List.take_of_length_le hn, count]

theorem count1?_take_append (hn : count allowed cs ≤ n) (h : Stops allowed rest) :
    count1? allowed (cs.take n ++ rest) = count1? allowed cs := by
  rw [count1?, count_take_append hn h, count1?]

theorem count1?_eq_some_iff : count1? allowed cs = some n ↔ count allowed cs = n ∧ n ≠ 0 := by
  unfold count1?
  split <;> simp_all
  omega

theorem count_self (h : ∀ c ∈ cs, allowed c) : count allowed cs = cs.length := by
  rw [count, List.takeWhile_eq_self_iff.mpr h]

theorem count_append_self (hall : ∀ c ∈ cs, allowed c) (h : Stops allowed rest) :
    count allowed (cs ++ rest) = cs.length := by
  rw [count_append h, count_self hall]

theorem mem_takeWhile : ∀ c ∈ cs.takeWhile allowed, allowed c :=
  fun _ hc => List.mem_takeWhile_imp hc

/-! ### IRIs and variables -/

theorem iriLength?_eq_some (h : iriLength? cs = some n) :
    ∃ body, (∀ c ∈ body, isIriChar c) ∧ cs.take n = '<' :: body ++ ['>'] ∧ n = body.length + 2 := by
  unfold iriLength? at h
  split at h
  · next rest =>
    dsimp only at h
    split at h
    · next hclose =>
      cases h
      refine ⟨rest.takeWhile isIriChar, mem_takeWhile, ?_, rfl⟩
      obtain ⟨others, hothers⟩ : ∃ others, rest.drop (count isIriChar rest) = '>' :: others :=
        List.head?_eq_some_iff.mp hclose
      rw [List.take_succ_cons, List.take_add, take_count, hothers]
      rfl
    · cases h
  · cases h

theorem iriLength?_bracketed {body : List Char} (h : ∀ c ∈ body, isIriChar c) :
    iriLength? ('<' :: body ++ '>' :: rest) = some (body.length + 2) := by
  have hstop : Stops isIriChar ('>' :: rest) := by
    intro c hc
    cases hc
    decide
  simp [iriLength?, count_append_self h hstop]

theorem variableLength?_eq_some (h : variableLength? cs = some n) :
    ∃ sigil name, (∀ c ∈ name, isNameChar c) ∧ name ≠ [] ∧ cs.take n = sigil :: name ∧
      n = name.length + 1 := by
  have hname : ∀ {sigil others}, (count1? isNameChar others).map (· + 1) = some n →
      ∃ name, (∀ c ∈ name, isNameChar c) ∧ name ≠ [] ∧
        (sigil :: others).take n = sigil :: name ∧ n = name.length + 1 := by
    intro sigil others hcount
    obtain ⟨m, hm, rfl⟩ := Option.map_eq_some_iff.mp hcount
    obtain ⟨rfl, hne⟩ := count1?_eq_some_iff.mp hm
    refine ⟨others.takeWhile isNameChar, mem_takeWhile, ?_, ?_, rfl⟩
    · exact fun hnil => hne (by simp [count, hnil])
    · rw [List.take_succ_cons, take_count]
  unfold variableLength? at h
  split at h
  · exact ⟨_, hname h⟩
  · exact ⟨_, hname h⟩
  · cases h

theorem variableLength?_sigil {name : List Char} (h : ∀ c ∈ name, isNameChar c) (hne : name ≠ [])
    (hrest : Stops isNameChar rest) :
    variableLength? ('?' :: name ++ rest) = some (name.length + 1) := by
  have hlength : name.length ≠ 0 := fun h0 => hne (List.eq_nil_of_length_eq_zero h0)
  simp [variableLength?, count1?_eq_some_iff, count_append_self h hrest, hne]

/-! ### Literals -/

theorem after?_eq_some_iff {mark : List Char} : after? mark cs = some rest ↔ cs = mark ++ rest := by
  induction mark generalizing cs with
  | nil => simp [after?]
  | cons m mark ih =>
      cases cs with
      | nil => simp [after?]
      | cons c cs =>
          rw [after?]
          split
          · next heq => simp [heq, ih]
          · next hne => simp [Ne.symm hne]

theorem after?_isSome_iff {mark : List Char} : (after? mark cs).isSome ↔ mark <+: cs := by
  rw [Option.isSome_iff_exists]
  exact exists_congr fun _ => after?_eq_some_iff.trans eq_comm

variable {quote : List Char} {multiline : Bool}

theorem stringEnd?_of_isPrefix (h : quote <+: cs) (hne : quote ≠ []) :
    stringEnd? quote multiline cs = some quote.length := by
  cases cs with
  | nil => exact absurd (List.prefix_nil.mp h) hne
  | cons c cs => rw [stringEnd?.eq_def]; simp [after?_isSome_iff, h]

theorem stringEnd?_escape {c : Char} (h : ¬ quote <+: '\\' :: c :: cs) :
    stringEnd? quote multiline ('\\' :: c :: cs) =
      (stringEnd? quote multiline cs).map (· + 2) := by
  simp [stringEnd?, after?_isSome_iff, h]

theorem stringEnd?_cons {c : Char} (h : ¬ quote <+: c :: cs) (hc : c ≠ '\\') :
    stringEnd? quote multiline (c :: cs) =
      if !multiline && (c == '\n' || c == '\r') then none
      else (stringEnd? quote multiline cs).map (· + 1) := by
  rw [stringEnd?.eq_def]
  simp [after?_isSome_iff, h, hc]

theorem stringEnd?_bounds (h : stringEnd? quote multiline cs = some n) :
    quote.length ≤ n ∧ n ≤ cs.length := by
  fun_induction stringEnd? quote multiline cs generalizing n with
  | case1 => cases h
  | case2 c cs hquote =>
      cases h
      exact ⟨Nat.le_refl _, (after?_isSome_iff.mp hquote).length_le⟩
  | case3 => cases h
  | case4 c cs _ _ ih =>
      obtain ⟨m, hm, rfl⟩ := Option.map_eq_some_iff.mp h
      have := ih hm
      simp only [List.length_cons]
      omega
  | case5 => cases h
  | case6 c cs _ _ _ ih =>
      obtain ⟨m, hm, rfl⟩ := Option.map_eq_some_iff.mp h
      have := ih hm
      simp only [List.length_cons]
      omega

/-- A text that does not begin with the closing quote does not do so either when it is cut behind
a later one. -/
theorem not_prefix_take_append (rest : List Char) (h : ¬ quote <+: cs) (hn : quote.length ≤ n)
    (hcs : n ≤ cs.length) :
    ¬ quote <+: cs.take n ++ rest := by
  intro hbegin
  have htake : quote <+: cs.take n :=
    List.prefix_of_prefix_length_le hbegin (List.prefix_append _ _)
      (by rw [List.length_take]; omega)
  exact h (htake.trans (List.take_prefix _ _))

theorem stringEnd?_take_append (rest : List Char) (hne : quote ≠ [])
    (h : stringEnd? quote multiline cs = some n) :
    stringEnd? quote multiline (cs.take n ++ rest) = some n := by
  have hbounds := stringEnd?_bounds h
  fun_induction stringEnd? quote multiline cs generalizing n with
  | case1 => cases h
  | case2 c cs hquote =>
      cases h
      have htake := List.prefix_iff_eq_take.mp (after?_isSome_iff.mp hquote)
      exact stringEnd?_of_isPrefix (htake ▸ List.prefix_append _ _) hne
  | case3 => cases h
  | case4 c cs hnot _ ih =>
      obtain ⟨m, hm, rfl⟩ := Option.map_eq_some_iff.mp h
      have hnot := not_prefix_take_append rest (after?_isSome_iff.not.mp hnot)
        hbounds.1 hbounds.2
      simp only [List.take_succ_cons, List.cons_append] at hnot ⊢
      rw [stringEnd?_escape hnot, ih hm (stringEnd?_bounds hm)]
      rfl
  | case5 => cases h
  | case6 c cs hnot hc hline ih =>
      obtain ⟨m, hm, rfl⟩ := Option.map_eq_some_iff.mp h
      have hnot := not_prefix_take_append rest (after?_isSome_iff.not.mp hnot)
        hbounds.1 hbounds.2
      simp only [List.take_succ_cons, List.cons_append] at hnot ⊢
      rw [stringEnd?_cons hnot hc, if_neg hline, ih hm (stringEnd?_bounds hm)]
      rfl

/-- A quotation mark. -/
def isQuote (c : Char) : Bool := c == '"' || c == '\''

theorem isQuote_iff {c : Char} : isQuote c ↔ c = '"' ∨ c = '\'' := by
  simp [isQuote]

theorem openingQuote?_cons {q : Char} (hq : isQuote q) (tail : List Char) :
    openingQuote? (q :: tail) = some (if [q, q] <+: tail then [q, q, q] else [q]) := by
  rcases isQuote_iff.mp hq with rfl | rfl <;>
    · unfold openingQuote?
      split <;> simp_all [List.cons_prefix_cons]
      rintro ⟨others, rfl⟩
      simp_all

theorem exists_of_openingQuote? (h : openingQuote? cs = some quote) :
    ∃ q tail, isQuote q ∧ cs = q :: tail := by
  unfold openingQuote? at h
  split at h
  all_goals first
    | exact ⟨_, _, by decide, rfl⟩
    | cases h

theorem exists_of_literalLength? (h : literalLength? cs = some n) :
    ∃ q tail, isQuote q ∧ cs = q :: tail := by
  cases hopen : openingQuote? cs with
  | none => simp [literalLength?, hopen] at h
  | some quote => exact exists_of_openingQuote? hopen

theorem literalLength?_cons {q : Char} (hq : isQuote q) (tail : List Char) :
    literalLength? (q :: tail) =
      if [q, q] <+: tail then (stringEnd? [q, q, q] true (tail.drop 2)).map (· + 3)
      else (stringEnd? [q] false tail).map (· + 1) := by
  unfold literalLength?
  rw [openingQuote?_cons hq]
  split
  · cases h : stringEnd? [q, q, q] true (tail.drop 2) <;> simp [h]
  · cases h : stringEnd? [q] false tail <;> simp [h]

theorem literalLength?_take_append (h : literalLength? cs = some n) (hrest : Stops isQuote rest) :
    literalLength? (cs.take n ++ rest) = some n := by
  obtain ⟨q, tail, hq, rfl⟩ := exists_of_literalLength? h
  rw [literalLength?_cons hq] at h
  split at h
  · next htriple =>
    obtain ⟨m, hm, rfl⟩ := Option.map_eq_some_iff.mp h
    obtain ⟨others, rfl⟩ := htriple
    have hend := stringEnd?_take_append rest (by simp) hm
    simp only [List.cons_append, List.nil_append, List.drop_succ_cons, List.drop_zero,
      List.take_succ_cons] at hend ⊢
    rw [literalLength?_cons hq, if_pos ⟨_, rfl⟩]
    simp [hend]
  · next hsingle =>
    obtain ⟨m, hm, rfl⟩ := Option.map_eq_some_iff.mp h
    have hend := stringEnd?_take_append rest (by simp) hm
    have hbounds := stringEnd?_bounds hm
    have hnot : ¬ [q, q] <+: tail.take m ++ rest := by
      intro hbegin
      by_cases htwo : m = 1
      · subst htwo
        obtain ⟨c, others, rfl⟩ := List.exists_cons_of_length_pos (l := tail) (by omega)
        obtain ⟨-, hquote⟩ : q = c ∧ [q] <+: rest := by
          simpa [List.cons_prefix_cons] using hbegin
        obtain ⟨others, rfl⟩ := hquote
        simpa [hq] using hrest q (by simp)
      · refine not_prefix_take_append rest hsingle ?_ hbounds.2 hbegin
        simp only [List.length_cons, List.length_nil] at hbounds ⊢
        omega
    rw [List.take_succ_cons, List.cons_append, literalLength?_cons hq, if_neg hnot, hend]
    rfl

theorem literalLength?_le (h : literalLength? cs = some n) : n ≤ cs.length := by
  obtain ⟨q, tail, hq, rfl⟩ := exists_of_literalLength? h
  rw [literalLength?_cons hq] at h
  split at h
  all_goals
    obtain ⟨m, hm, rfl⟩ := Option.map_eq_some_iff.mp h
    have hbounds := stringEnd?_bounds hm
    simp only [List.length_drop, List.length_cons, List.length_nil] at hbounds ⊢
    omega

/-! ### Language tags and numbers -/

theorem languageLength?_eq_some (h : languageLength? cs = some n) :
    ∃ tag, (∀ c ∈ tag, c.isAlphanum || c == '-') ∧ cs.take n = '@' :: tag ∧
      n = tag.length + 1 := by
  unfold languageLength? at h
  split at h
  · next tail =>
    cases hm : count1? Char.isAlpha tail with
    | none => simp [hm] at h
    | some m =>
        obtain ⟨rfl, -⟩ := count1?_eq_some_iff.mp hm
        simp only [hm, Option.bind_eq_bind, Option.bind_some, Option.pure_def,
          Option.some.injEq] at h
        refine ⟨tail.takeWhile Char.isAlpha ++
          (tail.drop (count Char.isAlpha tail)).takeWhile (fun c => c.isAlphanum || c == '-'),
          fun c hc => ?_, ?_, ?_⟩
        · rcases List.mem_append.mp hc with hc | hc
          · have := mem_takeWhile c hc
            simp [Char.isAlphanum, this]
          · exact mem_takeWhile c hc
        · rw [← h, Nat.add_right_comm, List.take_succ_cons, List.take_add, take_count, take_count]
        · rw [List.length_append, ← h]
          simp only [count]
          omega
  · cases h

theorem languageLength?_take_append (h : languageLength? cs = some n)
    (hrest : Stops (fun c => c.isAlphanum || c == '-') rest) :
    cs.head? = some '@' ∧ languageLength? (cs.take n ++ rest) = some n := by
  unfold languageLength? at h
  split at h
  · next tail =>
    cases hm : count1? Char.isAlpha tail with
    | none => simp [hm] at h
    | some m =>
        have halpha : Stops Char.isAlpha rest := by
          intro c hc
          have := hrest c hc
          simp_all [Char.isAlphanum]
        obtain ⟨hcount, -⟩ := count1?_eq_some_iff.mp hm
        have hle : m ≤ tail.length := hcount ▸ count_le _ _
        simp only [hm, Option.bind_eq_bind, Option.bind_some, Option.pure_def,
          Option.some.injEq] at h
        obtain ⟨k, hk, rfl⟩ : ∃ k, count (fun c => c.isAlphanum || c == '-') (tail.drop m) = k ∧
            n = m + k + 1 := ⟨_, rfl, by omega⟩
        refine ⟨rfl, ?_⟩
        rw [List.take_succ_cons, List.cons_append, languageLength?,
          count1?_take_append (by omega) halpha, hm]
        have hdrop : (tail.take (m + k) ++ rest).drop m = (tail.drop m).take k ++ rest := by
          rw [List.drop_append_of_le_length (by simp; omega), List.drop_take]
          simp
        simp only [Option.bind_eq_bind, Option.bind_some, Option.pure_def, hdrop,
          count_take_append (Nat.le_of_eq hk) hrest, hk]
        congr 1
        omega
  · cases h

/-- What can continue a number. -/
def isNumberPart (c : Char) : Bool := c.isDigit || c == '.' || c == 'e' || c == 'E'

theorem drop_take_append {k : Nat} (hk : k ≤ n) (hn : n ≤ cs.length) :
    (cs.take n ++ rest).drop k = (cs.drop k).take (n - k) ++ rest := by
  rw [List.drop_append_of_le_length (by rw [List.length_take]; omega), List.drop_take]

theorem sign_take_append (hn : n ≠ 0) (hne : cs ≠ []) : sign (cs.take n ++ rest) = sign cs := by
  obtain ⟨c, cs, rfl⟩ := List.exists_cons_of_ne_nil hne
  obtain ⟨n, rfl⟩ := Nat.exists_eq_succ_of_ne_zero hn
  by_cases hp : c = '+'
  · simp [sign, hp]
  by_cases hm : c = '-'
  · simp [sign, hm]
  · simp [sign, hp, hm]

theorem fraction_eq_zero_or (cs : List Char) : fraction cs = 0 ∨
    ∃ tail, cs = '.' :: tail ∧ fraction cs = count Char.isDigit tail + 1 := by
  unfold fraction
  split
  · next tail =>
    split
    · exact .inl rfl
    · exact .inr ⟨tail, rfl, rfl⟩
  · exact .inl rfl

theorem exponent_eq_zero_or (cs : List Char) : exponent cs = 0 ∨
    ∃ e tail, (e = 'e' ∨ e = 'E') ∧ cs = e :: tail ∧
      count Char.isDigit (tail.drop (sign tail)) ≠ 0 ∧
      exponent cs = count Char.isDigit (tail.drop (sign tail)) + sign tail + 1 := by
  unfold exponent
  split
  · next tail =>
    dsimp only
    split
    · exact .inl rfl
    · next hn => exact .inr ⟨_, tail, .inl rfl, rfl, hn, rfl⟩
  · next tail =>
    dsimp only
    split
    · exact .inl rfl
    · next hn => exact .inr ⟨_, tail, .inr rfl, rfl, hn, rfl⟩
  · exact .inl rfl

theorem fraction_le (cs : List Char) : fraction cs ≤ cs.length := by
  rcases fraction_eq_zero_or cs with h | ⟨tail, rfl, h⟩
  · omega
  · have := count_le Char.isDigit tail
    simp only [List.length_cons]
    omega

theorem exponent_le (cs : List Char) : exponent cs ≤ cs.length := by
  rcases exponent_eq_zero_or cs with h | ⟨e, tail, -, rfl, hpos, h⟩
  · omega
  · have := count_le Char.isDigit (tail.drop (sign tail))
    simp only [List.length_cons, List.length_drop] at *
    omega

theorem fraction_of_stops (h : Stops isNumberPart rest) : fraction rest = 0 := by
  rcases fraction_eq_zero_or rest with h0 | ⟨tail, rfl, -⟩
  · exact h0
  · exact absurd (h '.' rfl) (by decide)

theorem exponent_of_stops (h : Stops isNumberPart rest) : exponent rest = 0 := by
  rcases exponent_eq_zero_or rest with h0 | ⟨e, tail, he, rfl, -⟩
  · exact h0
  · rcases he with rfl | rfl <;> exact absurd (h _ rfl) (by decide)

theorem Stops.digits (h : Stops isNumberPart rest) : Stops Char.isDigit rest := by
  intro c hc
  have := h c hc
  simp_all [isNumberPart]

theorem exponent_take_append (cs : List Char) (hrest : Stops isNumberPart rest) :
    exponent (cs.take (exponent cs) ++ rest) = exponent cs := by
  rcases exponent_eq_zero_or cs with h | ⟨e, tail, he, rfl, hpos, h⟩
  · rw [h]
    exact exponent_of_stops hrest
  · rw [h, List.take_succ_cons]
    have hle := count_le Char.isDigit (tail.drop (sign tail))
    rw [List.length_drop] at hle
    have hne : tail ≠ [] := by
      rintro rfl
      simp [count] at hpos
    have hsign : sign (tail.take (count Char.isDigit (tail.drop (sign tail)) + sign tail) ++ rest) =
        sign tail := sign_take_append (by omega) hne
    have hcount : count Char.isDigit ((tail.take
        (count Char.isDigit (tail.drop (sign tail)) + sign tail) ++ rest).drop (sign tail)) =
        count Char.isDigit (tail.drop (sign tail)) := by
      rw [drop_take_append (by omega) (by omega), Nat.add_sub_cancel]
      exact count_take_append (Nat.le_refl _) hrest.digits
    rcases he with rfl | rfl <;> simp only [List.cons_append, exponent, hsign, hcount]

theorem fraction_take_append (cs : List Char) (hrest : Stops isNumberPart rest) :
    fraction (cs.take (fraction cs + exponent (cs.drop (fraction cs))) ++ rest) = fraction cs := by
  rcases fraction_eq_zero_or cs with h | ⟨tail, rfl, h⟩
  · rw [h, List.drop_zero, Nat.zero_add]
    rcases exponent_eq_zero_or cs with h' | ⟨e, tail, he, rfl, -, h'⟩
    · rw [h']
      exact fraction_of_stops hrest
    · rw [h']
      rcases he with rfl | rfl <;> rfl
  · rw [h, Nat.add_right_comm, List.take_succ_cons]
    simp only [List.cons_append, fraction]
    rw [count_take_append (by omega) hrest.digits]
    obtain ⟨k, hk⟩ : ∃ k, count Char.isDigit tail = k + 1 := by
      refine Nat.exists_eq_succ_of_ne_zero fun h0 => ?_
      simp [fraction, h0] at h
    simp [hk]

/-- A number is made of a sign, digits, a fraction and an exponent. -/
theorem numberLength?_eq_some_iff : numberLength? cs = some n ↔
    ∃ s d f e, sign cs = s ∧ count Char.isDigit (cs.drop s) = d ∧ d ≠ 0 ∧
      fraction (cs.drop (s + d)) = f ∧ exponent (cs.drop (s + d + f)) = e ∧
      s + d + f + e = n := by
  unfold numberLength?
  cases hd : count1? Char.isDigit (cs.drop (sign cs)) with
  | none =>
      simp only [Option.bind_eq_bind, hd, Option.bind_none, reduceCtorEq, false_iff]
      rintro ⟨s, d, f, e, rfl, hcount, hpos, -⟩
      rw [count1?_eq_some_iff.mpr ⟨hcount, hpos⟩] at hd
      cases hd
  | some d =>
      obtain ⟨hcount, hpos⟩ := count1?_eq_some_iff.mp hd
      simp only [Option.bind_eq_bind, hd, Option.bind_some, Option.pure_def, Option.some.injEq]
      constructor
      · exact fun h => ⟨_, d, _, _, rfl, hcount, hpos, rfl, rfl, h⟩
      · rintro ⟨s, d', f, e, rfl, rfl, -, rfl, rfl, h⟩
        rw [← hcount]
        exact h

theorem numberLength?_take_append (h : numberLength? cs = some n)
    (hrest : Stops isNumberPart rest) : numberLength? (cs.take n ++ rest) = some n := by
  obtain ⟨s, d, f, e, hs, hd, hpos, hf, he, hn⟩ := numberLength?_eq_some_iff.mp h
  have hdle := count_le Char.isDigit (cs.drop s)
  have hfle := fraction_le (cs.drop (s + d))
  have hele := exponent_le (cs.drop (s + d + f))
  rw [List.length_drop] at hdle hfle hele
  have hne : cs ≠ [] := by
    rintro rfl
    simp only [List.length_nil] at hdle
    omega
  refine numberLength?_eq_some_iff.mpr ⟨s, d, f, e, ?_, ?_, hpos, ?_, ?_, hn⟩
  · rw [sign_take_append (by omega) hne, hs]
  · rw [drop_take_append (by omega) (by omega), count_take_append (by omega) hrest.digits, hd]
  · have hstep := fraction_take_append (cs.drop (s + d)) hrest
    rw [hf, List.drop_drop, he] at hstep
    rw [drop_take_append (by omega) (by omega), show n - (s + d) = f + e by omega, hstep]
  · have hstep := exponent_take_append (cs.drop (s + d + f)) hrest
    rw [he] at hstep
    rw [drop_take_append (by omega) (by omega), show n - (s + d + f) = e by omega, hstep]

theorem forall_mem_take_add {k m : Nat} {P : Char → Prop} (hk : ∀ c ∈ cs.take k, P c)
    (hm : ∀ c ∈ (cs.drop k).take m, P c) : ∀ c ∈ cs.take (k + m), P c := by
  intro c hc
  rw [List.take_add] at hc
  rcases List.mem_append.mp hc with hc | hc
  · exact hk c hc
  · exact hm c hc

theorem mem_take_sign : ∀ c ∈ cs.take (sign cs), c = '+' ∨ c = '-' := by
  unfold sign
  split <;> simp

theorem mem_take_fraction : ∀ c ∈ cs.take (fraction cs), isNumberPart c := by
  rcases fraction_eq_zero_or cs with h | ⟨tail, rfl, h⟩
  · simp [h]
  · rw [h, List.take_succ_cons, take_count]
    intro c hc
    rcases List.mem_cons.mp hc with rfl | hc
    · rfl
    · simp [isNumberPart, mem_takeWhile c hc]

theorem mem_take_exponent :
    ∀ c ∈ cs.take (exponent cs), isNumberPart c ∨ c = '+' ∨ c = '-' := by
  rcases exponent_eq_zero_or cs with h | ⟨e, tail, he, rfl, -, h⟩
  · simp [h]
  · rw [h, Nat.add_comm (count _ _), List.take_succ_cons]
    intro c hc
    rcases List.mem_cons.mp hc with rfl | hc
    · rcases he with rfl | rfl <;> exact .inl rfl
    · have hpieces : ∀ d ∈ tail.take (sign tail + count Char.isDigit (tail.drop (sign tail))),
          isNumberPart d ∨ d = '+' ∨ d = '-' := by
        refine forall_mem_take_add (fun d hd => .inr (mem_take_sign d hd)) fun d hd => .inl ?_
        rw [take_count] at hd
        simp [isNumberPart, mem_takeWhile d hd]
      exact hpieces c hc

/-- A number is made of digits, points, signs and the letter of its exponent. -/
theorem mem_take_numberLength? (h : numberLength? cs = some n) :
    ∀ c ∈ cs.take n, isNumberPart c ∨ c = '+' ∨ c = '-' := by
  obtain ⟨s, d, f, e, hs, hd, -, hf, he, rfl⟩ := numberLength?_eq_some_iff.mp h
  refine forall_mem_take_add (forall_mem_take_add (forall_mem_take_add ?_ ?_) ?_) ?_
  · exact fun c hc => .inr (mem_take_sign c (hs ▸ hc))
  · intro c hc
    rw [← hd, take_count] at hc
    exact .inl (by simp [isNumberPart, mem_takeWhile c hc])
  · exact fun c hc => .inl (mem_take_fraction c (hf ▸ hc))
  · exact fun c hc => mem_take_exponent c (he ▸ hc)

theorem numberLength?_le (h : numberLength? cs = some n) : n ≤ cs.length := by
  obtain ⟨s, d, f, e, hs, hd, hpos, hf, he, hn⟩ := numberLength?_eq_some_iff.mp h
  have hdle := count_le Char.isDigit (cs.drop s)
  have hele := exponent_le (cs.drop (s + d + f))
  have hfle := fraction_le (cs.drop (s + d))
  rw [List.length_drop] at hdle hfle hele
  omega

/-! ### Names -/

/-- What can continue the label of a blank node. -/
def isBlankChar (c : Char) : Bool := isAlphanumeric c || c == '_' || c == '-'

theorem count_eq_zero_iff : count allowed cs = 0 ↔ Stops allowed cs := by
  cases cs with
  | nil => simp [count, Stops]
  | cons c cs => cases hc : allowed c <;> simp [count, Stops, hc]

theorem count1?_eq_none_iff : count1? allowed cs = none ↔ Stops allowed cs := by
  rw [← count_eq_zero_iff, count1?]
  split <;> simp_all

theorem blankLength?_cons (tail : List Char) :
    blankLength? ('_' :: ':' :: tail) = (count1? isBlankChar tail).map (· + 2) := rfl

theorem blankLength?_eq_none_iff :
    blankLength? cs = none ↔ ∀ tail, cs = '_' :: ':' :: tail → Stops isBlankChar tail := by
  constructor
  · rintro h tail rfl
    rw [blankLength?_cons, Option.map_eq_none_iff] at h
    exact count1?_eq_none_iff.mp h
  · intro h
    unfold blankLength?
    split
    · next tail => exact congrArg (Option.map (· + 2)) (count1?_eq_none_iff.mpr (h tail rfl))
    · rfl

theorem blankLength?_eq_some (h : blankLength? cs = some n) :
    ∃ label, (∀ c ∈ label, isBlankChar c) ∧ label ≠ [] ∧ cs.take n = '_' :: ':' :: label ∧
      n = label.length + 2 := by
  by_cases hcs : ∃ tail, cs = '_' :: ':' :: tail
  · obtain ⟨tail, rfl⟩ := hcs
    rw [blankLength?_cons] at h
    obtain ⟨m, hm, rfl⟩ := Option.map_eq_some_iff.mp h
    obtain ⟨rfl, hne⟩ := count1?_eq_some_iff.mp hm
    refine ⟨tail.takeWhile isBlankChar, mem_takeWhile, ?_, ?_, rfl⟩
    · exact fun hnil => hne (by simp [count, hnil])
    · rw [List.take_succ_cons, List.take_succ_cons, take_count]
  · rw [blankLength?_eq_none_iff.mpr fun tail htail => absurd ⟨tail, htail⟩ hcs] at h
    cases h

theorem blankLength?_label {label : List Char} (h : ∀ c ∈ label, isBlankChar c)
    (hne : label ≠ []) (hrest : Stops isBlankChar rest) :
    blankLength? ('_' :: ':' :: label ++ rest) = some (label.length + 2) := by
  have hcount : count1? isBlankChar (label ++ rest) = some label.length :=
    count1?_eq_some_iff.mpr ⟨count_append_self h hrest, by simpa using hne⟩
  rw [List.cons_append, List.cons_append, blankLength?_cons, hcount]
  rfl

theorem trimRight_isPrefix (c : Char) (cs : List Char) : trimRight c cs <+: cs := by
  rw [trimRight, ← List.reverse_suffix, List.reverse_reverse]
  exact List.dropWhile_suffix _

theorem getLast?_trimRight (c : Char) (cs : List Char) : (trimRight c cs).getLast? ≠ some c := by
  rw [trimRight, List.getLast?_reverse]
  intro h
  have := List.head?_dropWhile_not (· == c) cs.reverse
  simp [h] at this

theorem trimRight_of_getLast? {c : Char} (h : cs.getLast? ≠ some c) : trimRight c cs = cs := by
  rw [trimRight]
  cases hr : cs.reverse with
  | nil => simp_all
  | cons d ds =>
      have hd : d ≠ c := by
        rintro rfl
        apply h
        rw [List.getLast?_eq_head?_reverse, hr]
        rfl
      rw [List.dropWhile_cons_of_neg (by simpa using hd), ← hr, List.reverse_reverse]

/-- The two halves of a prefixed name. -/
structure IsPrefixed (label part : List Char) : Prop where
  label_chars : ∀ c ∈ label, isLabelChar c
  label_valid : isLabel label
  part_chars : ∀ c ∈ part, isLocalChar c
  part_end : part.getLast? ≠ some '.'

theorem prefixedLength?_eq_some (h : prefixedLength? cs = some n) :
    ∃ label part, IsPrefixed label part ∧ cs.take n = label ++ ':' :: part ∧
      n = label.length + 1 + part.length := by
  unfold prefixedLength? at h
  dsimp only at h
  split at h
  · next tail htail =>
    split at h
    · next hvalid =>
      cases h
      refine ⟨cs.takeWhile isLabelChar, trimRight '.' (tail.takeWhile isLocalChar),
        ⟨mem_takeWhile, hvalid, ?_, getLast?_trimRight _ _⟩, ?_, rfl⟩
      · exact fun c hc => mem_takeWhile c ((trimRight_isPrefix _ _).subset hc)
      · have hbegin : trimRight '.' (tail.takeWhile isLocalChar) <+: tail :=
          (trimRight_isPrefix _ _).trans (List.takeWhile_prefix _)
        rw [Nat.add_assoc, List.take_add, htail, Nat.add_comm 1, List.take_succ_cons,
          ← List.prefix_iff_eq_take.mp hbegin]
        congr 1
        exact take_count
    · cases h
  · cases h

theorem IsPrefixed.prefixedLength?_append {label part : List Char} (h : IsPrefixed label part)
    (hrest : Stops isLocalChar rest) :
    prefixedLength? (label ++ ':' :: part ++ rest) = some (label.length + 1 + part.length) := by
  have hcolon : Stops isLabelChar (':' :: (part ++ rest)) := by
    intro c hc
    cases hc
    decide
  have hlabel : (label ++ ':' :: (part ++ rest)).takeWhile isLabelChar = label := by
    rw [takeWhile_append_of_stops hcolon, List.takeWhile_eq_self_iff.mpr h.label_chars]
  have hpart : (part ++ rest).takeWhile isLocalChar = part := by
    rw [takeWhile_append_of_stops hrest, List.takeWhile_eq_self_iff.mpr h.part_chars]
  simp only [List.append_assoc, List.cons_append, prefixedLength?, hlabel, List.drop_left,
    h.label_valid, if_true, hpart, trimRight_of_getLast? h.part_end]

/-- A text whose label characters are not followed by a colon begins with no prefixed name. -/
theorem prefixedLength?_eq_none (h : (cs.dropWhile isLabelChar).head? ≠ some ':') :
    prefixedLength? cs = none := by
  rw [← drop_count] at h
  unfold prefixedLength?
  dsimp only
  split
  · next tail htail => simp [count, htail] at h
  · rfl

/-- What can continue a bare duration. -/
def isDurationPart (c : Char) : Bool := c.isAlphanum || c == '.'

/-- A bare duration with a fraction. -/
structure IsFractional (run : List Char) : Prop where
  chars : ∀ c ∈ run, isDurationPart c
  last : run.getLast? ≠ some '.'
  first : run.head? = some 'P'
  point : run.contains '.'
  valid : (DurationFields.ofLexical? (String.ofList run)).isSome

theorem fractionalDurationLength?_eq (cs : List Char) : fractionalDurationLength? cs =
    let run := trimRight '.' (cs.takeWhile isDurationPart)
    if run.head? = some 'P' ∧ run.contains '.' ∧
        (DurationFields.ofLexical? (String.ofList run)).isSome then
      some run.length
    else none := rfl

theorem fractionalDurationLength?_eq_some (h : fractionalDurationLength? cs = some n) :
    ∃ run, IsFractional run ∧ cs.take n = run ∧ n = run.length := by
  rw [fractionalDurationLength?_eq] at h
  dsimp only at h
  split at h
  · next hrun =>
    cases h
    have hbegin := trimRight_isPrefix '.' (cs.takeWhile isDurationPart)
    refine ⟨_, ⟨fun c hc => mem_takeWhile c (hbegin.subset hc), getLast?_trimRight _ _,
      hrun.1, hrun.2.1, hrun.2.2⟩, ?_, rfl⟩
    exact (List.prefix_iff_eq_take.mp (hbegin.trans (List.takeWhile_prefix _))).symm
  · cases h

theorem IsFractional.fractionalDurationLength?_append {run : List Char} (h : IsFractional run)
    (hrest : Stops isDurationPart rest) :
    fractionalDurationLength? (run ++ rest) = some run.length := by
  have htake : (run ++ rest).takeWhile isDurationPart = run := by
    rw [takeWhile_append_of_stops hrest, List.takeWhile_eq_self_iff.mpr h.chars]
  rw [fractionalDurationLength?_eq, htake, trimRight_of_getLast? h.last]
  exact if_pos ⟨h.first, h.point, h.valid⟩

theorem fractionalDurationLength?_eq_none (h : '.' ∉ cs.takeWhile isDurationPart) :
    fractionalDurationLength? cs = none := by
  rw [fractionalDurationLength?_eq]
  refine if_neg fun hrun => h ?_
  exact (trimRight_isPrefix _ _).subset (by simpa using hrun.2.1)

/-- A bare word without a dot. -/
structure IsBareWord (word : List Char) : Prop where
  chars : ∀ c ∈ word, isNameChar c
  first : word.head?.any fun c => isAlphabetic c || c == '_'

theorem wordLength?_eq_some (h : wordLength? cs = some n) :
    ∃ word, IsBareWord word ∧ cs.take n = word ∧ n = word.length := by
  unfold wordLength? at h
  split at h
  · next hfirst =>
    obtain ⟨rfl, hne⟩ := count1?_eq_some_iff.mp h
    rw [take_count]
    refine ⟨_, ⟨mem_takeWhile, ?_⟩, rfl, rfl⟩
    cases cs with
    | nil => simp at hfirst
    | cons c cs =>
        rw [Ne, count_eq_zero_iff] at hne
        cases hc : isNameChar c <;> simp_all [Stops]
  · cases h

theorem IsBareWord.wordLength?_append {word : List Char} (h : IsBareWord word)
    (hrest : Stops isNameChar rest) : wordLength? (word ++ rest) = some word.length := by
  have hne : word ≠ [] := by
    rintro rfl
    simpa using h.first
  obtain ⟨c, cs, rfl⟩ := List.exists_cons_of_ne_nil hne
  rw [wordLength?, if_pos (by simpa using h.first), count1?_eq_some_iff]
  exact ⟨count_append_self h.chars hrest, by simp⟩

end Lexeme

end StreamQuery
