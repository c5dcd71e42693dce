import StreamQuery.Proofs.Exchange.Query
import StreamQuery.Proofs.Template.Substitution

/-! # Values in their places

Where the variables of a query give way to values that can stand in their places, the query can still be
read: names become IRIs, and in the slots of windows there are quoted durations and counts.
-/

namespace StreamQuery

open Text Lexeme Token QueryReader

/-! ### Quoted values -/

/-- A character of a duration or of a count. -/
def IsSlotChar (c : Char) : Prop := c.isAlphanum ∨ c ∈ ['.', '-', '+']

theorem Literal.escapeChar_of_isSlotChar {c : Char} (h : IsSlotChar c) : escapeChar c = [c] := by
  have hall : ∀ n < 128, (Char.ofNat n).isAlphanum ∨ Char.ofNat n ∈ ['.', '-', '+'] →
      escapeChar (Char.ofNat n) = [Char.ofNat n] := by decide +kernel
  have hascii : c.toNat < 128 := by
    rcases h with h | h
    · rw [isAlphanum_iff_toNat] at h
      omega
    · have hmarks : ∀ c ∈ ['.', '-', '+'], c.toNat < 128 := by decide
      exact hmarks c h
  have hc := hall _ hascii
  rw [Char.ofNat_toNat] at hc
  exact hc h

theorem Literal.quoted_of_isSlotChar {value : String} (h : ∀ c ∈ value.toList, IsSlotChar c) :
    quoted value = String.ofList ('"' :: value.toList ++ ['"']) := by
  have hsame : value.toList.flatMap escapeChar = value.toList := by
    rw [List.flatMap_congr fun c hc => escapeChar_of_isSlotChar (h c hc), List.flatMap_singleton']
  rw [quoted, hsame]

theorem QueryReader.unquoted_quotes {value : List Char} (h : '"' ∉ value) :
    unquoted (String.ofList ('"' :: value ++ ['"'])) = String.ofList value := by
  have htriple : after? "\"\"\"".toList ('"' :: value ++ ['"']) = none := by
    cases value with
    | nil => rfl
    | cons c value =>
        have hc : '"' ≠ c := fun heq => h (heq ▸ List.mem_cons_self)
        have hmarks : "\"\"\"".toList = ['"', '"', '"'] := by decide
        simp [hmarks, after?, hc]
  have hsingle : after? "'''".toList ('"' :: value ++ ['"']) = none := rfl
  simp only [unquoted, String.toList_ofList, htriple, hsingle]
  simp

theorem QueryReader.unquoted_quoted {value : String} (h : ∀ c ∈ value.toList, IsSlotChar c) :
    unquoted (Literal.quoted value) = value := by
  have hquote : '"' ∉ value.toList := by
    intro hmem
    rcases h '"' hmem with hc | hc
    · exact absurd hc (by decide)
    · exact absurd hc (by decide)
  rw [Literal.quoted_of_isSlotChar h, unquoted_quotes hquote, String.ofList_toList]

theorem DurationFields.isSlotChar_of_trim {value : String} (h : (ofLexical? value).isSome)
    (htrim : trim value.toList = value.toList) : ∀ c ∈ value.toList, IsSlotChar c := by
  have hbody : ∀ {negative : Bool} {body : List Char}, (ofBody? negative body).isSome →
      ∀ c ∈ 'P' :: body, IsSlotChar c := by
    intro negative body hbody
    rw [ofBody?_isSome_eq] at hbody
    obtain ⟨fields, hfields⟩ := Option.isSome_iff_exists.mp hbody
    refine List.forall_mem_cons.mpr ⟨.inl rfl, fun c hc => ?_⟩
    have hpart := (ofBody?_piece hfields).chars c hc
    rw [isDurationPart, Bool.or_eq_true, beq_iff_eq] at hpart
    exact hpart.imp_right fun hdot => by simp [hdot]
  unfold ofLexical? at h
  rw [htrim] at h
  split at h
  · next body heq =>
    rw [heq]
    exact List.forall_mem_cons.mpr ⟨.inr (by decide), hbody h⟩
  · next body heq =>
    rw [heq]
    exact hbody h
  · cases h

theorem Text.isSlotChar_of_readCount? {value : String} {n : Nat} (h : readCount? value = some n) :
    ∀ c ∈ value.toList, IsSlotChar c := by
  obtain ⟨digits, hvalue, -, hall⟩ := exists_digits_of_readCount? h
  have hdigits : ∀ c ∈ digits, IsSlotChar c := fun c hc => .inl (by simp [Char.isAlphanum, hall c hc])
  rcases hvalue with hvalue | hvalue
  · rw [hvalue]
    exact hdigits
  · rw [hvalue]
    exact List.forall_mem_cons.mpr ⟨.inr (by decide), hdigits⟩

namespace Bindings

/-! ### What becomes of names and slots -/

/-- A name of a stream or a window with a value in its place, if it is a bound variable. -/
inductive Names (bindings : Bindings) : Term → Term → Prop
  | iri (i : Iri) : Names bindings (.iri i) (.iri i)
  | free {v : Variable} (h : bindings.get? v.name = none) : Names bindings (.variable v) (.variable v)
  | bound {v : Variable} {i : Iri} (h : bindings.get? v.name = some (.iri i)) :
      Names bindings (.variable v) (.iri i)

/-- A literal that may stand in a slot: without a datatype, or with that of the slot. -/
def IsTyped (measure : Measure) (l : Literal) : Prop :=
  l.annotation = .plain ∨ ∃ proper, l.annotation = .datatype measure.datatype.text proper

/-- A term in a slot with a value in its place, if it is a bound variable. -/
inductive Fills (bindings : Bindings) : Measure → Term → Term → Prop
  | literal {measure : Measure} (l : Literal) : Fills bindings measure (.literal l) (.literal l)
  | free {measure : Measure} {v : Variable} (h : bindings.get? v.name = none) :
      Fills bindings measure (.variable v) (.variable v)
  | duration {v : Variable} {l : Literal} (h : bindings.get? v.name = some (.literal l))
      (htyped : IsTyped .duration l) (hvalid : (DurationFields.ofLexical? l.value).isSome)
      (htrim : trim l.value.toList = l.value.toList) :
      Fills bindings .duration (.variable v)
        (.literal (.typed l.value "http://www.w3.org/2001/XMLSchema#duration"))
  | count {v : Variable} {l : Literal} {n : Nat} (h : bindings.get? v.name = some (.literal l))
      (htyped : IsTyped .count l) (hcount : readCount? l.value = some n) :
      Fills bindings .count (.variable v) (.ofCount n)

/-- No bound variable stands directly behind `FROM` or `TO`. -/
def Apart (bindings : Bindings) (ts : List Token) : Prop :=
  ∀ keyword name, [keyword, .variable name] <:+: ts → keyword.isWord "FROM" ∨ keyword.isWord "TO" →
    bindings.get? name = none

variable {bindings : Bindings} {prefixes : PrefixMapping} {t : Token} {ts us rest : List Token}
  {measure : Measure} {term term' : Term} {slot : String}

theorem Apart.of_isInfix (h : bindings.Apart ts) (hus : us <:+: ts) : bindings.Apart us :=
  fun keyword name hpair => h keyword name (hpair.trans hus)

theorem mem_zip_tail {u : Token} (h : [t, u] <:+: ts) : (t, u) ∈ ts.zip ts.tail := by
  induction ts with
  | nil => cases List.infix_nil.mp h
  | cons first ts ih =>
      rcases List.infix_cons_iff.mp h with hprefix | hinfix
      · obtain ⟨rest, hrest⟩ := hprefix
        cases hrest
        exact List.mem_cons_self
      · have hpair := ih hinfix
        cases ts with
        | nil => cases hpair
        | cons second ts => exact List.mem_cons_of_mem _ hpair

theorem Apart.of_pairs (h : ∀ pair ∈ ts.zip ts.tail, pair.1.isWord "FROM" ∨ pair.1.isWord "TO" →
    pair.2.variableName? = none) : bindings.Apart ts := by
  intro keyword name hpair hkeyword
  cases h _ (mem_zip_tail hpair) hkeyword

theorem tokens_of_value? {value : Term} (h : bindings.value? t = some value) :
    bindings.tokens t = value.tokens := by
  rw [tokens, h]

theorem tokens_of_none (h : bindings.value? t = none) : bindings.tokens t = [t] := by
  rw [tokens, h]

theorem tokens_variable {name : String} {value : Term} (h : bindings.get? name = some value) :
    bindings.tokens (.variable name) = value.tokens :=
  tokens_of_value? h

theorem tokens_variable_of_none {name : String} (h : bindings.get? name = none) :
    bindings.tokens (.variable name) = [.variable name] :=
  tokens_of_none h

theorem isInert_of_mem_tokens {value : Term} : ∀ t ∈ value.tokens, t.IsInert := by
  have hinert : ∀ t : Token, (∀ word, t ≠ .word word) → (∀ mark, t ≠ .punct mark) → t.IsInert :=
    fun t => .of_ne
  cases value with
  | literal l =>
      unfold Term.tokens
      dsimp only
      split <;> simp [hinert]
  | _ => simp [Term.tokens, hinert]

theorem head?_tokens_ne {value : Term} {u : Token} {new : List Token} (h : value.tokens = u :: new) :
    u ≠ .datatypeMark := by
  rintro rfl
  cases value with
  | literal l =>
      unfold Term.tokens at h
      dsimp only at h
      split at h <;> cases h
  | _ => cases h

theorem resolve_tokens (h : resolve prefixes t = .ok term) (hnames : bindings.Names term term') :
    ∃ u, bindings.tokens t = [u] ∧ resolve prefixes u = .ok term' := by
  rcases resolve_cases h with ⟨i, rfl, rfl⟩ | ⟨i, text, rfl, rfl, -⟩ | ⟨v, rfl, rfl⟩
  · cases hnames
    exact ⟨_, rfl, h⟩
  · cases hnames
    exact ⟨_, rfl, h⟩
  · cases hnames with
    | free hnone => exact ⟨_, tokens_variable_of_none hnone, h⟩
    | @bound _ i hvalue => exact ⟨.iri i.text, tokens_variable hvalue, Term.ofIri_text i⟩

/-- A literal with the right datatype is read in a slot, if nothing follows that goes on with it. -/
theorem readSlot_tokens {l : Literal} (htyped : IsTyped measure l)
    (hchars : ∀ c ∈ l.value.toList, IsSlotChar c) (hrest : rest.head? ≠ some .datatypeMark)
    (hvalue : readUnquoted measure slot l.value = .ok term) :
    readSlot prefixes measure slot ((Term.literal l).tokens ++ rest) = .ok (term, rest) := by
  rw [← unquoted_quoted hchars] at hvalue
  rcases htyped with hplain | ⟨proper, hdatatype⟩
  · have htokens : (Term.literal l).tokens = [.literal (Literal.quoted l.value)] := by
      rw [Term.tokens, hplain]
    rw [htokens, List.singleton_append, readSlot_literal]
    exact readQuoted_eq_ok_iff.mpr ⟨none, readDatatype_of_ne hrest, by rintro _ ⟨⟩, hvalue⟩
  · have htokens : (Term.literal l).tokens =
        [.literal (Literal.quoted l.value), .datatypeMark, .iri measure.datatype.text] := by
      rw [Term.tokens, hdatatype]
    rw [htokens, List.cons_append, readSlot_literal]
    refine readQuoted_eq_ok_iff.mpr ⟨some measure.datatype.text, readDatatype_iri prefixes _ rest, ?_, hvalue⟩
    rintro _ ⟨⟩
    rfl

/-- A slot keeps its value if no bound variable stands there. -/
theorem Fills.eq_of_none (h : bindings.Fills measure term term')
    (hnone : ∀ v, term = .variable v → bindings.get? v.name = none) : term' = term := by
  cases h with
  | literal => rfl
  | free => rfl
  | duration hvalue => exact absurd (hvalue.symm.trans (hnone _ rfl)) nofun
  | count hvalue => exact absurd (hvalue.symm.trans (hnone _ rfl)) nofun

/-- A value that fits into a slot is read there. -/
theorem Fills.readSlot_tokens {name : String} {value : Term} (hfills : bindings.Fills measure term term')
    (hterm : Term.ofVariable name = .ok term) (hvalue : bindings.get? name = some value)
    (hrest : rest.head? ≠ some .datatypeMark) :
    readSlot prefixes measure slot (value.tokens ++ rest) = .ok (term', rest) := by
  obtain ⟨v, rfl, rfl⟩ := Term.ofVariable_eq_ok hterm
  cases hfills with
  | free hnone => cases hvalue.symm.trans hnone
  | duration hbound htyped hvalid htrim =>
      cases hvalue.symm.trans hbound
      exact Bindings.readSlot_tokens htyped (DurationFields.isSlotChar_of_trim hvalid htrim) hrest
        (durationTerm_eq_ok_iff.mpr ⟨hvalid, rfl⟩)
  | count hbound htyped hcount =>
      cases hvalue.symm.trans hbound
      exact Bindings.readSlot_tokens htyped (isSlotChar_of_readCount? hcount) hrest
        (countTerm_eq_ok_iff.mpr ⟨_, hcount, rfl⟩)

/-- What substitution makes of tokens, no bound variable of which stands alone for a point in the past. -/
def Substituted (bindings : Bindings) (ts us : List Token) : Prop :=
  us = ts.flatMap bindings.tokens ∧ bindings.Apart ts

theorem Substituted.tail (h : bindings.Substituted (t :: ts) us) :
    ∃ us', us = bindings.tokens t ++ us' ∧ bindings.Substituted ts us' := by
  obtain ⟨rfl, hapart⟩ := h
  exact ⟨_, List.flatMap_cons, rfl, hapart.of_isInfix (List.suffix_cons t ts).isInfix⟩

theorem Substituted.keep (h : bindings.Substituted (t :: ts) us) (hnone : bindings.value? t = none) :
    ∃ us', us = t :: us' ∧ bindings.Substituted ts us' := by
  obtain ⟨us', rfl, hrest⟩ := h.tail
  exact ⟨us', by rw [tokens_of_none hnone, List.singleton_append], hrest⟩

theorem value?_of_isWord {word : String} (h : t.isWord word) : bindings.value? t = none := by
  cases t with
  | word => rfl
  | _ => cases h

theorem isExchange (bindings : Bindings) : IsExchange bindings.Substituted where
  nil h := h.1
  cons {t ts us} h := by
    cases hvalue : bindings.value? t with
    | none => exact .inl (h.keep hvalue)
    | some value =>
        obtain ⟨name, rfl, -⟩ := value?_eq_some_iff.mp hvalue
        obtain ⟨us', rfl, hrest⟩ := h.tail
        obtain ⟨u, new, htokens⟩ := List.exists_cons_of_ne_nil value.tokens_ne_nil
        have hexchanged : Exchanged bindings.Substituted (.variable name :: ([] ++ ts)) (u :: (new ++ us')) :=
          .intro trivial nofun (htokens ▸ isInert_of_mem_tokens) (head?_tokens_ne htokens) hrest
        rw [tokens_of_value? hvalue, htokens]
        exact .inr hexchanged

/-- Substitution as an exchange. -/
theorem exchange (bindings : Bindings) (prefixes : PrefixMapping) :
    Exchange prefixes bindings.Names bindings.Fills bindings.Substituted where
  toIsExchange := bindings.isExchange
  name {t ts us term term'} h hresolve hnames := by
    obtain ⟨us', rfl, hrest⟩ := h.tail
    obtain ⟨u, htokens, hu⟩ := resolve_tokens hresolve hnames
    exact ⟨u, us', by rw [htokens, List.singleton_append], hrest, hu⟩
  slot {measure slot ts us term term' rest} hslot hrest h hfills := by
    cases ts with
    | nil => cases hslot
    | cons t ts =>
        cases hvalue : bindings.value? t with
        | none =>
            obtain ⟨us', rfl, hbehind⟩ := h.keep hvalue
            have hkept : term' = term := by
              refine hfills.eq_of_none ?_
              rintro v rfl
              rwa [eq_variable_of_readSlot hslot] at hvalue
            exact hkept ▸ bindings.isExchange.readSlot hslot hbehind
        | some value =>
            obtain ⟨name, rfl, hbound⟩ := value?_eq_some_iff.mp hvalue
            obtain ⟨us', rfl, hbehind⟩ := h.tail
            obtain ⟨_, hterm, heq⟩ := bind_eq_ok_iff.mp hslot
            cases heq
            rw [tokens_of_value? hvalue]
            exact ⟨us', hfills.readSlot_tokens hterm hbound (bindings.isExchange.head?_ne hbehind hrest),
              hbehind⟩
  fixed {measure l term'} h := by
    cases h
    rfl
  alone {keyword name ts us term term'} hkeyword h hvariable hfills := by
    have hnone : bindings.get? name = none :=
      h.2 keyword name (List.prefix_append [keyword, .variable name] ts).isInfix hkeyword
    obtain ⟨_, rfl, hbehind⟩ := h.keep (hkeyword.elim value?_of_isWord value?_of_isWord)
    obtain ⟨us', rfl, hrest⟩ := hbehind.keep hnone
    obtain ⟨v, rfl, rfl⟩ := Term.ofVariable_eq_ok hvariable
    refine ⟨hfills.eq_of_none ?_, us', rfl, hrest⟩
    rintro _ ⟨⟩
    exact hnone
  header {keyword t ts us} hkeyword h := by
    obtain ⟨_, rfl, hbehind⟩ := h.keep (value?_of_isWord hkeyword)
    obtain ⟨us', rfl, hrest⟩ := hbehind.tail
    cases hvalue : bindings.value? t with
    | none => exact ⟨t, [], us', by rw [tokens_of_none hvalue]; rfl, hrest, nofun⟩
    | some value =>
        obtain ⟨u, new, htokens⟩ := List.exists_cons_of_ne_nil value.tokens_ne_nil
        refine ⟨u, new, us', by rw [tokens_of_value? hvalue, htokens]; rfl, hrest, fun t ht => ?_⟩
        exact isInert_of_mem_tokens t (htokens ▸ List.mem_cons_of_mem u ht)

end Bindings

end StreamQuery
