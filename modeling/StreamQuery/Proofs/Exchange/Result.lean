import StreamQuery.Proofs.Query.RoundTrip

/-! # Reading with values exchanged

Variables and literals in a query give way to other tokens. Most of a query is read no matter which
tokens stand there, as long as none of them is a keyword or a mark. Names and the slots of windows are
read as well, if the new tokens can be read in their places.
-/

namespace StreamQuery

open Text Lexeme Token

/-! ### Tokens without a meaning for the reader -/

theorem isDigit_toUpper (c : Char) : c.toUpper.isDigit = c.isDigit := by
  unfold Char.toUpper
  split
  · next hlower =>
    rw [Bool.eq_iff_iff]
    simp [Char.isDigit, UInt32.le_iff_toNat_le] at hlower ⊢
    omega
  · rfl

/-- A word without digits, as all keywords are. -/
def IsKeyword (word : String) : Bool := word.toList.all fun c => !c.isDigit

/-- A token that is neither a keyword nor a mark. -/
structure Token.IsInert (token : Token) : Prop where
  punct : ∀ mark, token.isPunct mark = false
  word : ∀ word, IsKeyword word → token.isWord word = false

/-- A token that a value can be exchanged for. -/
def Token.IsValue : Token → Prop
  | .variable _ | .literal _ => True
  | _ => False

namespace Token.IsInert

variable {t : Token}

theorem of_ne (hword : ∀ word, t ≠ .word word) (hpunct : ∀ mark, t ≠ .punct mark) : t.IsInert where
  punct mark := by
    cases t with
    | punct mark => exact absurd rfl (hpunct mark)
    | _ => rfl
  word word _ := by
    cases t with
    | word word => exact absurd rfl (hword word)
    | _ => rfl

theorem of_isValue (h : t.IsValue) : t.IsInert := by
  refine of_ne ?_ ?_ <;> rintro _ rfl <;> exact h

/-- A word with a digit is no keyword. -/
theorem of_digit {word : String} {c : Char} (hc : c ∈ word.toList) (hdigit : c.isDigit) :
    (Token.word word).IsInert where
  punct _ := rfl
  word keyword hkeyword := by
    rw [← Bool.not_eq_true]
    intro hsame
    have hupper : c.toUpper ∈ keyword.toList.map Char.toUpper := by
      rw [← eq_of_beq (α := List Char) hsame]
      exact List.mem_map_of_mem hc
    obtain ⟨d, hd, hdc⟩ := List.mem_map.mp hupper
    have hletter := List.all_eq_true.mp hkeyword d hd
    rw [← isDigit_toUpper d, hdc, isDigit_toUpper, hdigit] at hletter
    cases hletter

theorem isOperator (h : t.IsInert) : t.isOperator = false := by
  simp [Token.isOperator, OutputOperator.named, OutputOperator.keyword?, h.word "ISTREAM" (by decide),
    h.word "DSTREAM" (by decide), h.word "RSTREAM" (by decide)]

theorem isModifier (h : t.IsInert) : QueryReader.isModifier t = false := by
  simp [QueryReader.isModifier, h.word "DISTINCT" (by decide), h.word "REDUCED" (by decide)]

theorem endsResult (h : t.IsInert) : QueryReader.endsResult t = false := by
  simp [QueryReader.endsResult, h.word "FROM" (by decide), h.word "WHERE" (by decide), h.punct]

theorem beginsDeclaration (h : t.IsInert) : QueryReader.beginsDeclaration t = false := by
  simp [QueryReader.beginsDeclaration, h.word "BASE" (by decide), h.word "PREFIX" (by decide)]

end Token.IsInert

theorem Token.not_isValue_of_isWord {t : Token} {word : String} (h : t.isWord word) : ¬ t.IsValue := by
  cases t with
  | word => exact id
  | _ => cases h

theorem Token.not_isValue_of_isPunct {t : Token} {mark : String} (h : t.isPunct mark) : ¬ t.IsValue := by
  cases t with
  | punct => exact id
  | _ => cases h

namespace QueryReader

/-- A value at the beginning of some tokens has given way to other tokens. -/
inductive Exchanged (R : List Token → List Token → Prop) : List Token → List Token → Prop
  | intro {t u : Token} {old new ts us : List Token} (ht : t.IsValue)
      (hold : ∀ t ∈ old, t.IsInert) (hnew : ∀ t ∈ u :: new, t.IsInert) (hmark : u ≠ .datatypeMark)
      (hrest : R ts us) : Exchanged R (t :: (old ++ ts)) (u :: (new ++ us))

/-- What becomes of the frame of a window. -/
inductive FrameExchanged (slots : Measure → Term → Term → Prop) : Frame → Frame → Prop
  | logical {range range' : Term} (h : slots .duration range range') :
      FrameExchanged slots (.logical range) (.logical range')
  | past {start start' stop stop' : Term} (hstart : slots .duration start start')
      (hstop : slots .duration stop stop') : FrameExchanged slots (.past start stop) (.past start' stop')
  | physical {items items' : Term} (h : slots .count items items') :
      FrameExchanged slots (.physical items) (.physical items')

/-- What becomes of a window. -/
structure WindowExchanged (names : Term → Term → Prop) (slots : Measure → Term → Term → Prop)
    (window window' : Window) : Prop where
  id : names window.id window'.id
  stream : names window.stream window'.stream
  frame : FrameExchanged slots window.frame window'.frame
  step : Option.Rel (slots window.frame.measure) window.step window'.step

/-- What becomes of a clause behind `FROM`: a graph stays as it is. -/
inductive SourceExchanged (names : Term → Term → Prop) (slots : Measure → Term → Term → Prop) :
    DatasetClause ⊕ Window → DatasetClause ⊕ Window → Prop
  | graph (clause : DatasetClause) : SourceExchanged names slots (.inl clause) (.inl clause)
  | window {window window' : Window} (h : WindowExchanged names slots window window') :
      SourceExchanged names slots (.inr window) (.inr window')

/-- A token is kept where it is, or it is a value and gives way. -/
structure IsExchange (R : List Token → List Token → Prop) : Prop where
  nil : ∀ {us}, R [] us → us = []
  cons : ∀ {t ts us}, R (t :: ts) us → (∃ us', us = t :: us' ∧ R ts us') ∨ Exchanged R (t :: ts) us

/-- How tokens are exchanged, and what becomes of names and of the values of slots. -/
structure Exchange (prefixes : PrefixMapping) (names : Term → Term → Prop)
    (slots : Measure → Term → Term → Prop) (R : List Token → List Token → Prop) : Prop
    extends IsExchange R where
  /-- A name gives way to one token. -/
  name : ∀ {t ts us term term'}, R (t :: ts) us → resolve prefixes t = .ok term → names term term' →
    ∃ u us', us = u :: us' ∧ R ts us' ∧ resolve prefixes u = .ok term'
  slot : ∀ {measure slot ts us term term' rest},
    readSlot prefixes measure slot ts = .ok (term, rest) → rest.head? ≠ some .datatypeMark →
      R ts us → slots measure term term' →
        ∃ rest', readSlot prefixes measure slot us = .ok (term', rest') ∧ R rest rest'
  /-- A value that stands in a slot is kept. -/
  fixed : ∀ {measure l term'}, slots measure (.literal l) term' → term' = .literal l
  /-- A variable that stands alone for a point in the past is kept. -/
  alone : ∀ {keyword name ts us term term'}, keyword.isWord "FROM" ∨ keyword.isWord "TO" →
    R (keyword :: .variable name :: ts) us → Term.ofVariable name = .ok term →
      slots .duration term term' →
        term' = term ∧ ∃ us', us = keyword :: .variable name :: us' ∧ R ts us'
  /-- Behind the word `WINDOW`, no more than one token gives way. -/
  header : ∀ {keyword t ts us}, keyword.isWord "WINDOW" → R (keyword :: t :: ts) us →
    ∃ u new us', us = keyword :: u :: (new ++ us') ∧ R ts us' ∧ ∀ u ∈ new, u.IsInert

theorem readModifier_of_not {ts : List Token} (h : ∀ t ∈ ts.head?, ¬ isModifier t) :
    readModifier ts = (none, ts) := by
  cases ts with
  | nil => rfl
  | cons t ts => exact if_neg (h t rfl)

/-- Tokens without a meaning stand inside braces where they are. -/
theorem balancedReading_inert {old : List Token} (hold : ∀ t ∈ old, t.IsInert) {depth : Nat}
    {ts inner rest : List Token} : BalancedReading depth (old ++ ts) inner rest ↔
      ∃ others, inner = old ++ others ∧ BalancedReading depth ts others rest := by
  induction old generalizing inner with
  | nil => simp
  | cons t old ih =>
      obtain ⟨ht, hold⟩ := List.forall_mem_cons.mp hold
      have hopen := Bool.eq_false_iff.mp (ht.punct "\x7b")
      have hclose := Bool.eq_false_iff.mp (ht.punct "\x7d")
      constructor
      · intro h
        cases h with
        | done hbrace => exact absurd hbrace hclose
        | opened hbrace => exact absurd hbrace hopen
        | closed hbrace => exact absurd hbrace hclose
        | other _ _ h =>
            obtain ⟨others, rfl, hothers⟩ := (ih hold).mp h
            exact ⟨others, rfl, hothers⟩
      · rintro ⟨others, rfl, hothers⟩
        exact .other hopen hclose ((ih hold).mpr ⟨others, rfl, hothers⟩)

namespace IsExchange

variable {R : List Token → List Token → Prop} (hR : IsExchange R) {t : Token} {ts us : List Token}

include hR

theorem keep (ht : ¬ t.IsValue) (h : R (t :: ts) us) : ∃ us', us = t :: us' ∧ R ts us' := by
  rcases hR.cons h with hkept | ⟨hvalue, -, -, -⟩
  · exact hkept
  · exact absurd hvalue ht

/-- What does not stand at the beginning of some tokens is not put there. -/
theorem not_head? {p : Token → Bool} (hp : ∀ t : Token, t.IsInert → p t = false) (h : R ts us)
    (hts : ∀ t ∈ ts.head?, ¬ p t) : ∀ u ∈ us.head?, ¬ p u := by
  cases ts with
  | nil =>
      rw [hR.nil h]
      exact nofun
  | cons t ts =>
      rcases hR.cons h with ⟨us', rfl, -⟩ | ⟨-, -, hnew, -⟩
      · exact hts
      · rintro _ ⟨⟩
        exact Bool.eq_false_iff.mp (hp _ (hnew _ List.mem_cons_self))

theorem head?_ne (h : R ts us) (hts : ts.head? ≠ some .datatypeMark) : us.head? ≠ some .datatypeMark := by
  cases ts with
  | nil =>
      rw [hR.nil h]
      exact nofun
  | cons t ts =>
      rcases hR.cons h with ⟨us', rfl, -⟩ | ⟨-, -, -, hmark, -⟩
      · exact hts
      · exact fun heq => hmark (Option.some.inj heq)

end IsExchange

namespace Exchange

variable {prefixes : PrefixMapping} {names : Term → Term → Prop} {slots : Measure → Term → Term → Prop}
  {R : List Token → List Token → Prop} (hR : Exchange prefixes names slots R)
  {t u : Token} {ts us rest : List Token}

include hR

/-! ### Declarations and registration -/

theorem readPrologue {prologue prologue' : Prologue}
    (h : readPrologue prologue ts = .ok (prologue', rest)) (hts : R ts us) :
    ∃ rest', QueryReader.readPrologue prologue us = .ok (prologue', rest') ∧ R rest rest' := by
  fun_induction QueryReader.readPrologue prologue ts generalizing us with
  | case1 =>
      cases h
      exact ⟨us, by rw [hR.nil hts]; rfl, hts⟩
  | case2 prologue keyword hbase text ts ih =>
      obtain ⟨_, rfl, hbehind⟩ := hR.keep (not_isValue_of_isWord hbase) hts
      obtain ⟨us, rfl, hrest⟩ := hR.keep id hbehind
      rw [QueryReader.readPrologue, if_pos hbase]
      exact ih h hrest
  | case3 => cases h
  | case4 prologue keyword hbase hbegin name hcolon space ts label =>
      rename_i ih
      obtain ⟨_, rfl, hbehind⟩ := hR.keep (not_isValue_of_isWord hbegin) hts
      obtain ⟨_, rfl, hspace⟩ := hR.keep id hbehind
      obtain ⟨us, rfl, hrest⟩ := hR.keep id hspace
      rw [QueryReader.readPrologue, if_neg hbase, if_pos hbegin, if_pos hcolon]
      exact ih h hrest
  | case5 => cases h
  | case6 => cases h
  | case7 => cases h
  | case8 prologue keyword ts hbase hbegin =>
      cases h
      refine ⟨us, readPrologue_of_not (hR.not_head? (fun t => Token.IsInert.beginsDeclaration) hts ?_), hts⟩
      rintro _ ⟨⟩
      simp [beginsDeclaration, hbase, hbegin]

theorem readRegister_none (h : readRegister ts = .ok (none, rest)) (hts : R ts us) :
    ∃ rest', readRegister us = .ok (none, rest') ∧ R rest rest' := by
  cases readRegister_eq_ok_iff.mp h with
  | none hnone =>
      have hus := hR.not_head? (fun t ht => ht.word "REGISTER" (by decide)) hts hnone
      exact ⟨us, readRegister_eq_ok_iff.mpr (.none hus), hts⟩

theorem readRegister_some {operator : OutputOperator} {term term' : Term}
    (h : readRegister ts = .ok (some (t, operator), rest)) (hts : R ts us)
    (ht : resolve prefixes t = .ok term) (hnames : names term term') :
    ∃ u rest', readRegister us = .ok (some (u, operator), rest') ∧ R rest rest' ∧
      resolve prefixes u = .ok term' := by
  cases readRegister_eq_ok_iff.mp h with
  | some hkeyword hword hstream hlast =>
      obtain ⟨_, rfl, hbehind⟩ := hR.keep (not_isValue_of_isWord hkeyword) hts
      obtain ⟨_, rfl, hname⟩ := hR.keep id hbehind
      obtain ⟨u, _, rfl, hend, hu⟩ := hR.name hname ht hnames
      obtain ⟨rest', rfl, hrest⟩ := hR.keep (not_isValue_of_isWord hlast) hend
      have hstream' : ∀ others, readOutput (u :: others) = .ok (u, others) := by
        rcases resolve_cases hu with ⟨i, -, rfl⟩ | ⟨i, text, -, rfl, -⟩ | ⟨v, -, rfl⟩ <;> exact fun _ => rfl
      exact ⟨u, rest', readRegister_eq_ok_iff.mpr (.some hkeyword hword hstream' hlast), hrest, hu⟩

/-! ### Results -/

/-- What holds of the rest of some tokens holds of all of them, whatever is exchanged at their beginning. -/
theorem induct {motive : List Token → List Token → Prop} (nil : motive [] [])
    (keep : ∀ t {ts us}, R ts us → motive ts us → motive (t :: ts) (t :: us))
    (exchange : ∀ {old new ts us}, (∀ t ∈ old, t.IsInert) → (∀ u ∈ new, u.IsInert) → R ts us →
      old ≠ [] → new ≠ [] → motive ts us → motive (old ++ ts) (new ++ us))
    (h : R ts us) : motive ts us := by
  obtain ⟨n, hn⟩ : ∃ n, ts.length ≤ n := ⟨_, Nat.le_refl _⟩
  induction n generalizing ts us with
  | zero =>
      obtain rfl := List.eq_nil_of_length_eq_zero (Nat.le_zero.mp hn)
      rw [hR.nil h]
      exact nil
  | succ n ih =>
      cases ts with
      | nil =>
          rw [hR.nil h]
          exact nil
      | cons t ts =>
          rw [List.length_cons] at hn
          rcases hR.cons h with ⟨us, rfl, hrest⟩ | @⟨_, u, old, new, ts, us, ht, hold, hnew, hmark, hrest⟩
          · exact keep t hrest (ih hrest (by omega))
          · rw [List.length_append] at hn
            exact @exchange (t :: old) (u :: new) _ _
              (List.forall_mem_cons.mpr ⟨.of_isValue ht, hold⟩) hnew hrest (List.cons_ne_nil _ _)
              (List.cons_ne_nil _ _) (ih hrest (by omega))

/-- The list of what a query answers with stays a list. -/
theorem dropWhile_endsResult (h : R ts us) :
    R (ts.dropWhile (!endsResult ·)) (us.dropWhile (!endsResult ·)) ∧
      (us.takeWhile (!endsResult ·)).isEmpty = (ts.takeWhile (!endsResult ·)).isEmpty := by
  have hinner : ∀ {others : List Token}, (∀ t ∈ others, t.IsInert) → ∀ t ∈ others,
      (!endsResult t) = true := fun hothers t ht => by simp [(hothers t ht).endsResult]
  refine hR.induct (motive := fun ts us => R ts us → R (ts.dropWhile (!endsResult ·))
    (us.dropWhile (!endsResult ·)) ∧ (us.takeWhile (!endsResult ·)).isEmpty =
      (ts.takeWhile (!endsResult ·)).isEmpty) ?_ ?_ ?_ h h
  · exact fun hnil => ⟨hnil, rfl⟩
  · intro t ts us hrest ih hall
    cases hends : endsResult t with
    | true => simpa [hends] using hall
    | false => simpa [hends] using (ih hrest).1
  · intro old new ts us hold hnew hrest hne hne' ih _
    rw [List.dropWhile_append_of_pos (hinner hold), List.dropWhile_append_of_pos (hinner hnew),
      List.takeWhile_append_of_pos (hinner hold), List.takeWhile_append_of_pos (hinner hnew)]
    refine ⟨(ih hrest).1, ?_⟩
    cases old <;> cases new <;> first | rfl | contradiction

/-- The brace that closes a group stays where it is. -/
theorem balancedReading {depth : Nat} {inner : List Token} (h : BalancedReading depth ts inner rest)
    (hts : R ts us) : ∃ inner' rest', BalancedReading depth us inner' rest' ∧ R rest rest' := by
  refine hR.induct (motive := fun ts us => ∀ {depth inner}, BalancedReading depth ts inner rest →
    ∃ inner' rest', BalancedReading depth us inner' rest' ∧ R rest rest') ?_ ?_ ?_ hts h
  · intro depth inner h
    cases h
  · intro t ts us hrest ih depth inner h
    cases h with
    | done hclose => exact ⟨[], us, .done hclose, hrest⟩
    | opened hopen h =>
        obtain ⟨inner', rest', h', hrest'⟩ := ih h
        exact ⟨_, rest', .opened hopen h', hrest'⟩
    | closed hclose h =>
        obtain ⟨inner', rest', h', hrest'⟩ := ih h
        exact ⟨_, rest', .closed hclose h', hrest'⟩
    | other hopen hclose h =>
        obtain ⟨inner', rest', h', hrest'⟩ := ih h
        exact ⟨_, rest', .other hopen hclose h', hrest'⟩
  · intro old new ts us hold hnew _ _ _ ih depth inner h
    obtain ⟨others, -, hothers⟩ := (balancedReading_inert hold).mp h
    obtain ⟨inner', rest', h', hrest'⟩ := ih hothers
    exact ⟨new ++ inner', rest', (balancedReading_inert hnew).mpr ⟨inner', rfl, h'⟩, hrest'⟩

theorem readOperator (h : R ts us) : ∃ us', QueryReader.readOperator us =
    ((QueryReader.readOperator ts).1, us') ∧ R (QueryReader.readOperator ts).2 us' := by
  have hkept : (∀ t ∈ ts.head?, ¬ t.isOperator) → ∃ us', QueryReader.readOperator us =
      ((QueryReader.readOperator ts).1, us') ∧ R (QueryReader.readOperator ts).2 us' := by
    intro hts
    have hus := hR.not_head? (fun t => Token.IsInert.isOperator) h hts
    have hread : ∀ {others : List Token}, (∀ t ∈ others.head?, ¬ t.isOperator) →
        QueryReader.readOperator others = (.unspecified, others) := fun hothers =>
      @readOperator_keyword _ .unspecified fun _ => hothers
    rw [hread hts]
    exact ⟨us, hread hus, h⟩
  cases ts with
  | nil => exact hkept (by simp)
  | cons t ts =>
      cases t with
      | word word =>
          cases hoperator : OutputOperator.ofKeyword? word with
          | none =>
              refine hkept fun t ht => ?_
              cases ht
              rw [isOperator_word, hoperator]
              exact Bool.false_ne_true
          | some operator =>
              obtain ⟨us, rfl, hrest⟩ := hR.keep id h
              rw [QueryReader.readOperator, QueryReader.readOperator, hoperator]
              exact ⟨us, rfl, hrest⟩
      | _ => exact hkept fun t ht => by cases ht; exact Bool.false_ne_true

theorem readModifier (h : R ts us) : ∃ us', QueryReader.readModifier us =
    ((QueryReader.readModifier ts).1, us') ∧ R (QueryReader.readModifier ts).2 us' := by
  cases ts with
  | nil => exact ⟨us, by rw [hR.nil h]; rfl, h⟩
  | cons t ts =>
      by_cases hmodifier : isModifier t
      · have ht : ¬ t.IsValue := fun ht => by simp [(Token.IsInert.of_isValue ht).isModifier] at hmodifier
        obtain ⟨us, rfl, hrest⟩ := hR.keep ht h
        rw [QueryReader.readModifier, QueryReader.readModifier, if_pos hmodifier, if_pos hmodifier]
        exact ⟨us, rfl, hrest⟩
      · have hus := hR.not_head? (fun t => Token.IsInert.isModifier) h (by
          rintro _ ⟨⟩
          exact hmodifier)
        rw [QueryReader.readModifier, if_neg hmodifier]
        exact ⟨us, readModifier_of_not hus, h⟩

/-- What a query answers with has the same form, with a template of its own or without. -/
theorem readResult {form : ResultForm} {operator : OutputOperator}
    (h : readResult ts = .ok (form, operator, rest)) (hts : R ts us) : ∃ form' rest',
      QueryReader.readResult us = .ok (form', operator, rest') ∧ R rest rest' ∧
        form'.form = form.form ∧ (form' = .construct none → form = .construct none) := by
  cases readResult_eq_ok_iff.mp h with
  | select hkeyword hoperator hmodifier hne =>
      obtain ⟨us, rfl, hrest⟩ := hR.keep (not_isValue_of_isWord hkeyword) hts
      obtain ⟨afterOperator, hoperator', hothers⟩ := hR.readOperator hrest
      rw [hoperator] at hoperator' hothers
      obtain ⟨others, hmodifier', hlist⟩ := hR.readModifier hothers
      rw [hmodifier] at hmodifier' hlist
      obtain ⟨hbehind, hempty⟩ := hR.dropWhile_endsResult hlist
      have hne' : others.takeWhile (!endsResult ·) ≠ [] := by
        rwa [Ne, ← List.isEmpty_iff, hempty, List.isEmpty_iff]
      exact ⟨_, _, (ReadsResult.select hkeyword hoperator' hmodifier' hne').readResult, hbehind, rfl,
        by rintro ⟨⟩⟩
  | template hkeyword hoperator hopen hinner =>
      obtain ⟨us, rfl, hrest⟩ := hR.keep (not_isValue_of_isWord hkeyword) hts
      obtain ⟨afterOperator, hoperator', hothers⟩ := hR.readOperator hrest
      rw [hoperator] at hoperator' hothers
      obtain ⟨afterOpen, rfl, hbehind⟩ := hR.keep (not_isValue_of_isPunct hopen) hothers
      obtain ⟨inner, rest', hinner', hrest'⟩ := hR.balancedReading hinner hbehind
      exact ⟨_, _, (ReadsResult.template hkeyword hoperator' hopen hinner').readResult, hrest', rfl,
        by rintro ⟨⟩⟩
  | construct hkeyword hoperator hopen =>
      obtain ⟨us, rfl, hrest⟩ := hR.keep (not_isValue_of_isWord hkeyword) hts
      obtain ⟨afterOperator, hoperator', hothers⟩ := hR.readOperator hrest
      rw [hoperator] at hoperator' hothers
      have hopen' := hR.not_head? (fun t ht => ht.punct "\x7b") hothers hopen
      exact ⟨_, _, (ReadsResult.construct hkeyword hoperator' hopen').readResult, hothers, rfl,
        fun _ => rfl⟩
  | ask hkeyword =>
      obtain ⟨us, rfl, hrest⟩ := hR.keep (not_isValue_of_isWord hkeyword) hts
      exact ⟨_, _, (ReadsResult.ask hkeyword).readResult, hrest, rfl, by rintro ⟨⟩⟩
  | describe hkeyword hne =>
      obtain ⟨us, rfl, hrest⟩ := hR.keep (not_isValue_of_isWord hkeyword) hts
      obtain ⟨hbehind, hempty⟩ := hR.dropWhile_endsResult hrest
      have hne' : us.takeWhile (!endsResult ·) ≠ [] := by
        rwa [Ne, ← List.isEmpty_iff, hempty, List.isEmpty_iff]
      exact ⟨_, _, (ReadsResult.describe hkeyword hne').readResult, hbehind, rfl, by rintro ⟨⟩⟩

end Exchange

end QueryReader

end StreamQuery
