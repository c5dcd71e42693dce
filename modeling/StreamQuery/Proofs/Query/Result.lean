import StreamQuery.Proofs.Query.Written

/-! # Reading declarations and results

What stands in front of the clauses of a query: its declarations, the registration of its output
stream, and what it answers with. Each part is read again from the tokens that it is written as.
-/

namespace StreamQuery

open Text Lexeme Token

/-! ### Keywords -/

theorem eq_of_ofKeyword? {word : String} {operator : OutputOperator}
    (h : OutputOperator.ofKeyword? word = some operator) :
    ∃ keyword, operator.keyword? = some keyword ∧ sameLetters word keyword := by
  have hfound := List.find?_some h
  obtain ⟨keyword, hkeyword, hword⟩ := (Option.any_eq_true _ _).mp hfound
  exact ⟨keyword, hkeyword, hword⟩

theorem ofKeyword?_keyword {word : String} {operator : OutputOperator}
    (h : operator.keyword? = some word) : OutputOperator.ofKeyword? word = some operator := by
  cases operator <;> cases h <;> decide

/-! ### Declarations -/

/-- Declarations that are made of tokens. -/
structure Prologue.FromTokens (prologue : Prologue) : Prop where
  base : ∀ base ∈ prologue.base, ∀ c ∈ base.toList, isIriChar c
  labels : ∀ entry ∈ prologue.prefixes.entries, PrefixMapping.IsPlainLabel entry.1 →
    PrefixMapping.IsLabelName entry.1
  chars : ∀ entry ∈ prologue.prefixes.entries, ∀ c ∈ entry.1.toList, isLocalChar c
  spaces : ∀ entry ∈ prologue.prefixes.entries, ∀ c ∈ entry.2.toList, isIriChar c

namespace Prologue.FromTokens

variable {prologue : Prologue}

theorem empty : Prologue.empty.FromTokens := ⟨nofun, nofun, nofun, nofun⟩

theorem declared (h : prologue.FromTokens)
    (hplain : ∀ entry ∈ prologue.prefixes.entries, PrefixMapping.IsPlainLabel entry.1) :
    prologue.Declared where
  base := h.base
  prefixes := ⟨hplain, fun entry hentry => h.labels entry hentry (hplain entry hentry), h.spaces⟩

theorem setBase (h : prologue.FromTokens) {text : String} (htext : (Token.iri text).Lexical) :
    Prologue.FromTokens { prologue with base := some text } where
  base base hbase := by
    cases hbase
    exact htext.iri_chars
  labels := h.labels
  chars := h.chars
  spaces := h.spaces

theorem insert (h : prologue.FromTokens) {name space : String}
    (hname : (Token.prefixed name).Lexical) (hspace : (Token.iri space).Lexical) :
    Prologue.FromTokens { prologue with
      prefixes := prologue.prefixes.insert (String.ofList (trimRight ':' name.toList)) space } where
  base := h.base
  labels entry hentry hplain := by
    rcases SortedMap.mem_insertEntry hentry with rfl | hentry
    · exact .of_declaration hname (by simpa using hplain.1)
    · exact h.labels entry hentry hplain
  chars entry hentry c hc := by
    rcases SortedMap.mem_insertEntry hentry with rfl | hentry
    · rw [String.toList_ofList] at hc
      obtain ⟨n, hn⟩ := PrefixMapping.trimRight_append ':' name.toList
      exact hname.prefixed_chars c (hn ▸ List.mem_append_left _ hc)
    · exact h.chars entry hentry c hc
  spaces entry hentry := by
    rcases SortedMap.mem_insertEntry hentry with rfl | hentry
    · exact hspace.iri_chars
    · exact h.spaces entry hentry

end Prologue.FromTokens

namespace QueryReader

variable {prologue prologue' : Prologue} {ts rest : List Token}

/-- Whether a token begins a declaration. -/
def beginsDeclaration (token : Token) : Bool := token.isWord "BASE" || token.isWord "PREFIX"

theorem dropDeclarations_of_not {token : Token} (h : ¬ beginsDeclaration token) :
    dropDeclarations (token :: ts) = token :: ts := by
  obtain ⟨hbase, hbegin⟩ : token.isWord "BASE" = false ∧ token.isWord "PREFIX" = false := by
    simpa [beginsDeclaration] using h
  unfold dropDeclarations
  split
  · next heq =>
    cases heq
    rw [hbase]
    rfl
  · next heq =>
    cases heq
    rw [hbegin]
    rfl
  · rfl

theorem readPrologue_spec (h : readPrologue prologue ts = .ok (prologue', rest))
    (hprologue : prologue.FromTokens) (hts : ∀ t ∈ ts, t.Lexical) :
    prologue'.FromTokens ∧ (∀ t ∈ rest, t.Lexical) ∧ dropDeclarations ts = rest := by
  fun_induction readPrologue prologue ts with
  | case1 =>
      cases h
      exact ⟨hprologue, nofun, rfl⟩
  | case2 prologue keyword hbase text rest' ih =>
      simp only [List.forall_mem_cons] at hts
      obtain ⟨hread, hlexical, hdrop⟩ := ih h (hprologue.setBase hts.2.1) hts.2.2
      exact ⟨hread, hlexical, by rw [dropDeclarations, if_pos hbase, hdrop]⟩
  | case3 => cases h
  | case4 prologue keyword hbase hbegin name hcolon space rest' label ih =>
      simp only [List.forall_mem_cons] at hts
      obtain ⟨hread, hlexical, hdrop⟩ := ih h (hprologue.insert hts.2.1 hts.2.2.1) hts.2.2.2
      exact ⟨hread, hlexical, by rw [dropDeclarations, if_pos hbegin, hdrop]⟩
  | case5 => cases h
  | case6 => cases h
  | case7 => cases h
  | case8 prologue keyword rest' hbase hbegin =>
      cases h
      refine ⟨hprologue, hts, dropDeclarations_of_not ?_⟩
      simp [beginsDeclaration, hbase, hbegin]

theorem readPrologue_of_not (h : ∀ t ∈ rest.head?, ¬ beginsDeclaration t) :
    readPrologue prologue rest = .ok (prologue, rest) := by
  cases rest with
  | nil => rfl
  | cons token rest =>
      obtain ⟨hbase, hbegin⟩ : token.isWord "BASE" = false ∧ token.isWord "PREFIX" = false := by
        simpa [beginsDeclaration] using h token rfl
      rw [readPrologue.eq_def]
      simp [hbase, hbegin]

theorem trimRight_label {label : String} (h : ':' ∉ label.toList) :
    String.ofList (trimRight ':' (label ++ ":").toList) = label := by
  have htrim : trimRight ':' (label ++ ":").toList = trimRight ':' label.toList := by
    simp [trimRight, String.toList_append]
  rw [htrim, trimRight_of_getLast? fun hlast => h (List.mem_of_getLast? hlast),
    String.ofList_toList]

theorem readPrologue_base (base : String) (ts : List Token) :
    readPrologue prologue (.word "BASE" :: .iri base :: ts) =
      readPrologue { prologue with base := some base } ts := by
  rw [readPrologue.eq_def]
  rfl

theorem readPrologue_entry {label : String} (h : ':' ∉ label.toList) (space : String)
    (ts : List Token) :
    readPrologue prologue (.word "PREFIX" :: .prefixed (label ++ ":") :: .iri space :: ts) =
      readPrologue { prologue with prefixes := prologue.prefixes.insert label space } ts := by
  have hlast : (label ++ ":").toList.getLast? = some ':' := by simp [String.toList_append]
  rw [readPrologue.eq_def]
  dsimp only
  rw [if_neg (by decide), if_pos (by decide), if_pos hlast, trimRight_label h]

theorem readPrologue_entries {entries : List (String × String)}
    (h : ∀ entry ∈ entries, ':' ∉ entry.1.toList) (ts : List Token) :
    readPrologue prologue ((entries.flatMap fun (label, space) =>
      [.word "PREFIX", .prefixed (label ++ ":"), .iri space]) ++ ts) =
        readPrologue { prologue with prefixes := prologue.prefixes.insertAll entries } ts := by
  induction entries generalizing prologue with
  | nil => rfl
  | cons entry entries ih =>
      obtain ⟨hentry, hentries⟩ := List.forall_mem_cons.mp h
      rw [List.flatMap_cons, List.append_assoc]
      exact (readPrologue_entry hentry entry.2 _).trans (ih hentries)

/-- Declarations are read from their tokens. -/
theorem readPrologue_tokens (h : prologue.Declared)
    (hrest : ∀ t ∈ rest.head?, ¬ beginsDeclaration t) :
    readPrologue .empty (prologue.tokens ++ rest) = .ok (prologue, rest) := by
  have hentries : ∀ base, readPrologue ⟨base, SortedMap.empty⟩
      ((prologue.prefixes.entries.flatMap fun (label, space) =>
        [.word "PREFIX", .prefixed (label ++ ":"), .iri space]) ++ rest) =
          .ok (⟨base, prologue.prefixes⟩, rest) := by
    intro base
    rw [readPrologue_entries fun entry hentry => (h.prefixes.plain entry hentry).1,
      SortedMap.insertAll_entries, readPrologue_of_not hrest]
  obtain ⟨base, prefixes⟩ := prologue
  cases base with
  | none => exact hentries none
  | some base =>
      exact (readPrologue_base base _).trans (hentries (some base))

end QueryReader

/-! ### Registration -/

/-- The operator that the registration of a query holds. -/
def Query.registeredOperator (query : Query) : OutputOperator :=
  if query.resultHasOperator then .unspecified else query.operator

namespace QueryReader

variable {ts rest : List Token} {query : Query}

theorem eq_of_expectWord {word : String} (h : expectWord word ts = .ok rest) :
    ∃ token, ts = token :: rest ∧ token.isWord word := by
  unfold expectWord at h
  split at h
  · next token others =>
    split at h
    · next hword =>
      cases h
      exact ⟨token, rfl, hword⟩
    · cases h
  · cases h

/-- Whatever follows the keyword behind `REGISTER`, it is read on its own. -/
theorem eq_of_readRegistered {operator : OutputOperator}
    (h : readRegistered ts = .ok (operator, rest)) : ∃ word, ts = .word word :: rest ∧
      ∀ others, readRegistered (.word word :: others) = .ok (operator, others) := by
  unfold readRegistered at h
  split at h
  · next word others =>
    refine ⟨word, ?_⟩
    unfold readRegistered
    dsimp only
    split at h
    · next hstream =>
      cases h
      exact ⟨rfl, fun _ => if_pos hstream⟩
    · next hstream =>
      cases hoperator : OutputOperator.ofKeyword? word with
      | some operator' =>
          rw [hoperator] at h
          cases h
          exact ⟨rfl, fun _ => if_neg hstream⟩
      | none =>
          rw [hoperator] at h
          cases h
  · cases h

theorem eq_of_readOutput {stream : Token} (h : readOutput ts = .ok (stream, rest)) :
    ts = stream :: rest ∧ ∀ others, readOutput (stream :: others) = .ok (stream, others) := by
  unfold readOutput at h
  split at h <;> cases h <;> exact ⟨rfl, fun _ => rfl⟩

theorem not_isWord_of_readOutput {stream : Token} (h : readOutput (stream :: ts) = .ok (stream, rest))
    (word : String) : stream.isWord word = false := by
  unfold readOutput at h
  split at h <;> cases h <;> rfl

/-- The keyword behind `REGISTER` is not the one that ends a registration. -/
theorem not_as_of_readRegistered {word : String} {operator : OutputOperator}
    (h : readRegistered (.word word :: ts) = .ok (operator, rest)) :
    (Token.word word).isWord "AS" = false := by
  unfold readRegistered at h
  dsimp only at h
  split at h
  · next hstream => exact sameLetters_eq hstream "AS"
  · split at h
    · next operator' hoperator =>
      obtain ⟨keyword, hkeyword, hword⟩ := eq_of_ofKeyword? hoperator
      rw [isWord, sameLetters_eq hword]
      cases operator' <;> cases hkeyword <;> rfl
    · cases h

/-- How the registration of an output stream stands in front of the rest of a query. -/
inductive RegisterReading : List Token → Option (Token × OutputOperator) → List Token → Prop
  | none {ts : List Token} (hts : ∀ t ∈ ts.head?, ¬ t.isWord "REGISTER") : RegisterReading ts none ts
  | some {keyword stream last : Token} {word : String} {operator : OutputOperator} {rest : List Token}
      (hkeyword : keyword.isWord "REGISTER")
      (hword : ∀ others, readRegistered (.word word :: others) = .ok (operator, others))
      (hstream : ∀ others, readOutput (stream :: others) = .ok (stream, others))
      (hlast : last.isWord "AS") :
      RegisterReading (keyword :: .word word :: stream :: last :: rest) (some (stream, operator)) rest

theorem readRegister_eq_ok_iff {register : Option (Token × OutputOperator)} :
    readRegister ts = .ok (register, rest) ↔ RegisterReading ts register rest := by
  constructor
  · intro h
    cases ts with
    | nil =>
        cases h
        exact .none nofun
    | cons keyword ts =>
        unfold readRegister at h
        dsimp only at h
        split at h
        · next hkeyword =>
          obtain ⟨⟨operator, afterOperator⟩, hoperator, h⟩ := bind_eq_ok_iff.mp h
          obtain ⟨⟨stream, afterStream⟩, hstream, h⟩ := bind_eq_ok_iff.mp h
          obtain ⟨others, has, heq⟩ := bind_eq_ok_iff.mp h
          cases heq
          obtain ⟨word, rfl, hword⟩ := eq_of_readRegistered hoperator
          obtain ⟨rfl, hname⟩ := eq_of_readOutput hstream
          obtain ⟨last, rfl, hlast⟩ := eq_of_expectWord has
          exact .some hkeyword hword hname hlast
        · next hkeyword =>
          cases h
          refine .none ?_
          rintro _ ⟨⟩
          exact hkeyword
  · intro h
    cases h with
    | none hts =>
        cases ts with
        | nil => rfl
        | cons keyword ts => exact if_neg (hts keyword rfl)
    | some hkeyword hword hstream hlast =>
        rw [readRegister, if_pos hkeyword]
        exact bind_eq_ok_iff.mpr ⟨_, hword _, bind_eq_ok_iff.mpr ⟨_, hstream _,
          bind_eq_ok_iff.mpr ⟨_, if_pos hlast, rfl⟩⟩⟩

theorem readRegister_spec {register : Option (Token × OutputOperator)}
    (h : readRegister ts = .ok (register, rest)) (hts : ∀ t ∈ ts, t.Lexical) :
    (∀ registered ∈ register, registered.1.Lexical) ∧ (∀ t ∈ rest, t.Lexical) ∧
      dropRegister ts = rest := by
  cases readRegister_eq_ok_iff.mp h with
  | none hnone =>
      refine ⟨nofun, hts, ?_⟩
      cases ts with
      | nil => rfl
      | cons keyword ts => exact if_neg (hnone keyword rfl)
  | some hkeyword hword hstream hlast =>
      simp only [List.forall_mem_cons] at hts
      refine ⟨?_, hts.2.2.2.2, ?_⟩
      · rintro _ ⟨⟩
        exact hts.2.2.1
      · rw [dropRegister, if_pos hkeyword]
        simp [not_as_of_readRegistered (hword []), not_isWord_of_readOutput (hstream []), hlast]

theorem readOutput_nameToken {prefixes : PrefixMapping} {term : Term} (h : term.Names prefixes)
    (rest : List Token) : readOutput (term.nameToken prefixes :: rest) =
      .ok (term.nameToken prefixes, rest) := by
  cases term with
  | iri i =>
      dsimp only [Term.nameToken]
      cases prefixes.abbreviate? i.text <;> rfl
  | literal l => cases h.resolves
  | «variable» v => rfl

/-- A registration is read from its tokens. -/
theorem readRegister_tokens (h : ∀ stream ∈ query.output, stream.Names query.prologue.prefixes)
    (hrest : ∀ t ∈ rest.head?, ¬ t.isWord "REGISTER") :
    readRegister (query.registerTokens ++ rest) = .ok (query.output.map fun stream =>
      (stream.nameToken query.prologue.prefixes, query.registeredOperator), rest) := by
  have hoperator : ∀ others, readRegistered (.word query.registerKeyword :: others) =
      .ok (query.registeredOperator, others) := by
    intro others
    unfold Query.registerKeyword Query.registeredOperator
    cases query.resultHasOperator <;> cases query.operator <;> rfl
  unfold Query.registerTokens
  cases houtput : query.output with
  | none => exact readRegister_eq_ok_iff.mpr (.none hrest)
  | some stream =>
      have hnames := h stream houtput
      exact readRegister_eq_ok_iff.mpr
        (.some (by decide) hoperator (readOutput_nameToken hnames) (by decide))

end QueryReader

/-! ### Results -/

namespace QueryReader

variable {ts rest : List Token} {operator : OutputOperator} {form : ResultForm}

theorem isOperator_word (word : String) :
    (Token.word word).isOperator = (OutputOperator.ofKeyword? word).isSome := by
  rw [OutputOperator.ofKeyword?, Bool.eq_iff_iff, List.find?_isSome, Token.isOperator,
    List.any_eq_true]
  rfl

theorem isOperator_eq_false {token : Token} (h : ∀ word, token ≠ .word word) :
    token.isOperator = false := by
  cases token with
  | word word => exact absurd rfl (h word)
  | _ => rfl

theorem readOperator_spec (ts : List Token) : dropOperator ts = (readOperator ts).2 ∧
    ((readOperator ts).1 = .unspecified → ∀ t ∈ (readOperator ts).2.head?, ¬ t.isOperator) := by
  unfold readOperator
  split
  · next word rest =>
    rw [dropOperator, isOperator_word]
    cases hword : OutputOperator.ofKeyword? word with
    | some operator =>
        refine ⟨rfl, ?_⟩
        rintro rfl
        obtain ⟨_, hkeyword, -⟩ := eq_of_ofKeyword? hword
        cases hkeyword
    | none =>
        refine ⟨rfl, ?_⟩
        rintro - t ⟨⟩
        rw [isOperator_word, hword]
        exact nofun
  · next hword =>
    have hhead : ∀ t ∈ ts.head?, t.isOperator = false := by
      intro t ht
      obtain ⟨rest, rfl⟩ := List.head?_eq_some_iff.mp ht
      exact isOperator_eq_false fun word heq => hword word rest (by rw [heq])
    refine ⟨?_, fun _ t ht => by simp [hhead t ht]⟩
    cases ts with
    | nil => rfl
    | cons t rest => rw [dropOperator, hhead t rfl]; rfl

theorem readOperator_keyword (h : operator = .unspecified → ∀ t ∈ ts.head?, ¬ t.isOperator) :
    readOperator (operator.keyword?.toList.map Token.word ++ ts) = (operator, ts) := by
  cases hkeyword : operator.keyword? with
  | none =>
      have hnone : operator = .unspecified := by cases operator <;> first | rfl | cases hkeyword
      subst hnone
      unfold readOperator
      rw [Option.toList_none, List.map_nil, List.nil_append]
      split
      · next word rest =>
        have hword := h rfl (.word word) rfl
        rw [isOperator_word, Bool.not_eq_true, Option.isSome_eq_false_iff,
          Option.isNone_iff_eq_none] at hword
        rw [hword]
      · rfl
  | some word =>
      rw [Option.toList_some, List.map_singleton, List.singleton_append, readOperator,
        ofKeyword?_keyword hkeyword]

/-- How tokens are read up to the brace that closes a group, with a number of groups still open inside:
one case for the brace itself, and one for each kind of token in front of it. -/
inductive BalancedReading : Nat → List Token → List Token → List Token → Prop
  | done {brace : Token} {rest : List Token} (hclose : brace.isPunct "\x7d") :
      BalancedReading 0 (brace :: rest) [] rest
  | opened {depth : Nat} {brace : Token} {ts inner rest : List Token} (hopen : brace.isPunct "\x7b")
      (h : BalancedReading (depth + 1) ts inner rest) :
      BalancedReading depth (brace :: ts) (brace :: inner) rest
  | closed {depth : Nat} {brace : Token} {ts inner rest : List Token} (hclose : brace.isPunct "\x7d")
      (h : BalancedReading depth ts inner rest) :
      BalancedReading (depth + 1) (brace :: ts) (brace :: inner) rest
  | other {depth : Nat} {token : Token} {ts inner rest : List Token} (hopen : ¬ token.isPunct "\x7b")
      (hclose : ¬ token.isPunct "\x7d") (h : BalancedReading depth ts inner rest) :
      BalancedReading depth (token :: ts) (token :: inner) rest

theorem readBalanced_eq_ok_iff {depth : Nat} {inner : List Token} :
    readBalanced depth ts = .ok (inner, rest) ↔ BalancedReading depth ts inner rest := by
  constructor
  · intro h
    fun_induction readBalanced depth ts generalizing inner with
    | case1 => cases h
    | case2 depth token ts hopen ih =>
        obtain ⟨_, hinner, heq⟩ := bind_eq_ok_iff.mp h
        cases heq
        exact .opened hopen (ih hinner)
    | case3 token ts hopen hclose =>
        cases h
        exact .done hclose
    | case4 token ts hopen hclose depth ih =>
        obtain ⟨_, hinner, heq⟩ := bind_eq_ok_iff.mp h
        cases heq
        exact .closed hclose (ih hinner)
    | case5 depth token ts hopen hclose ih =>
        obtain ⟨_, hinner, heq⟩ := bind_eq_ok_iff.mp h
        cases heq
        exact .other hopen hclose (ih hinner)
  · intro h
    induction h with
    | done hclose =>
        obtain rfl := eq_punct_of_isPunct hclose
        rfl
    | opened hopen _ ih =>
        rw [readBalanced.eq_def]
        dsimp only
        rw [if_pos hopen]
        exact bind_eq_ok_iff.mpr ⟨_, ih, rfl⟩
    | closed hclose _ ih =>
        obtain rfl := eq_punct_of_isPunct hclose
        exact bind_eq_ok_iff.mpr ⟨_, ih, rfl⟩
    | other hopen hclose _ ih =>
        rw [readBalanced.eq_def]
        dsimp only
        rw [if_neg hopen, if_neg hclose]
        exact bind_eq_ok_iff.mpr ⟨_, ih, rfl⟩

namespace BalancedReading

variable {depth : Nat} {inner : List Token}

/-- Whatever follows the brace, the same is read in front of it. -/
theorem again (h : BalancedReading depth ts inner rest) (others : List Token) :
    BalancedReading depth (inner ++ .punct "\x7d" :: others) inner others := by
  induction h with
  | done => exact .done (by decide)
  | opened hopen _ ih => exact .opened hopen ih
  | closed hclose _ ih => exact .closed hclose ih
  | other hopen hclose _ ih => exact .other hopen hclose ih

theorem splitGroup_eq (h : BalancedReading depth ts inner rest) :
    splitGroup depth ts = (inner ++ [.punct "\x7d"], rest) := by
  induction h with
  | done hclose =>
      obtain rfl := eq_punct_of_isPunct hclose
      rfl
  | opened hopen _ ih => simp [splitGroup, hopen, ih]
  | closed hclose _ ih =>
      obtain rfl := eq_punct_of_isPunct hclose
      simp [splitGroup, isPunct, ih]
  | other hopen hclose _ ih => simp [splitGroup, hopen, hclose, ih]

end BalancedReading

/-- What a query answers with, as it is read: the form of the result and the operator in it. -/
inductive ResultReading : ResultForm → OutputOperator → Prop
  | select {modifier : Option Token} {projection : List Token} {operator : OutputOperator}
      (hne : projection ≠ []) (hinner : ∀ t ∈ projection, ¬ endsResult t)
      (hmodifier : ∀ t ∈ modifier, isModifier t)
      (hplain : modifier = none → ∀ t ∈ projection.head?, ¬ isModifier t)
      (hoperator : operator = .unspecified →
        ∀ t ∈ (modifier.toList ++ projection).head?, ¬ t.isOperator) :
      ResultReading (.select modifier projection) operator
  | template {template : List Token} {operator : OutputOperator}
      (hbalanced : ∀ rest, readBalanced 0 (template ++ .punct "\x7d" :: rest) =
        .ok (template, rest)) : ResultReading (.construct (some template)) operator
  | construct {operator : OutputOperator} : ResultReading (.construct none) operator
  | ask : ResultReading .ask .unspecified
  | describe {targets : List Token} (hne : targets ≠ [])
      (hinner : ∀ t ∈ targets, ¬ endsResult t) : ResultReading (.describe targets) .unspecified

theorem readModifier_spec (ts : List Token) :
    ts = (readModifier ts).1.toList ++ (readModifier ts).2 ∧
      (∀ t ∈ (readModifier ts).1, isModifier t) ∧
      ((readModifier ts).1 = none → ∀ t ∈ (readModifier ts).2.head?, ¬ isModifier t) := by
  cases ts with
  | nil => exact ⟨rfl, nofun, fun _ => nofun⟩
  | cons token ts =>
      unfold readModifier
      dsimp only
      split
      · next hmodifier =>
        refine ⟨rfl, ?_, nofun⟩
        rintro _ ⟨⟩
        exact hmodifier
      · next hmodifier =>
        refine ⟨rfl, nofun, fun _ => ?_⟩
        rintro _ ⟨⟩
        exact hmodifier

theorem not_endsResult_of_isModifier {t : Token} (h : isModifier t) : ¬ endsResult t := by
  have hword : ∀ a ∈ ["DISTINCT", "REDUCED"], t.isWord a → ¬ endsResult t := by
    intro a ha hword
    have hpunct : t.isPunct "\x7b" = false := by simpa using isPunct_of_isWord hword
    simp only [List.mem_cons, List.not_mem_nil, or_false] at ha
    rcases ha with rfl | rfl <;>
      simp [endsResult, isWord_eq hword, hpunct, sameLetters]
  rw [isModifier, Bool.or_eq_true] at h
  rcases h with h | h
  · exact hword _ (by decide) h
  · exact hword _ (by decide) h

theorem readSelect_spec {keyword : Token} {modifier : Option Token} {others : List Token}
    (hkeyword : keyword.isWord "SELECT") (hread : readModifier (readOperator ts).2 = (modifier, others))
    (hne : others.takeWhile (!endsResult ·) ≠ []) :
    ResultReading (.select modifier (others.takeWhile (!endsResult ·))) (readOperator ts).1 ∧
      splitResult (keyword :: ts) =
        (ResultForm.tokens none (.select modifier (others.takeWhile (!endsResult ·))),
          others.dropWhile (!endsResult ·)) := by
  obtain ⟨hdrop, hoperator⟩ := readOperator_spec ts
  have hmodifierspec := readModifier_spec (readOperator ts).2
  rw [hread] at hmodifierspec
  obtain ⟨htokens, hmodifier, hplain⟩ := hmodifierspec
  have hinner : ∀ t ∈ modifier.toList, (!endsResult t) = true := fun t ht => by
    simpa using not_endsResult_of_isModifier (hmodifier t (by simpa using ht))
  have htake : (readOperator ts).2.takeWhile (!endsResult ·) =
      modifier.toList ++ others.takeWhile (!endsResult ·) := by
    rw [htokens, List.takeWhile_append_of_pos hinner]
  have hdropwhile : (readOperator ts).2.dropWhile (!endsResult ·) =
      others.dropWhile (!endsResult ·) := by
    rw [htokens, List.dropWhile_append_of_pos hinner]
  refine ⟨.select hne (fun t ht => ?_) hmodifier (fun hnone t ht => ?_) fun hnone t ht => ?_, ?_⟩
  · simpa using List.mem_takeWhile_imp ht
  · rw [List.head?_takeWhile] at ht
    exact hplain hnone t (Option.mem_filter_iff.mp ht).1
  · rw [← htake, List.head?_takeWhile] at ht
    exact hoperator hnone t (Option.mem_filter_iff.mp ht).1
  · rw [splitResult, if_pos hkeyword, hdrop]
    dsimp only
    rw [htake, hdropwhile]
    rfl

/-- How a result stands in front of the rest of a query: one case for each form, and two for `CONSTRUCT`,
with a template of its own and without. -/
inductive ReadsResult : List Token → ResultForm → OutputOperator → List Token → Prop
  | select {keyword : Token} {ts us others : List Token} {operator : OutputOperator}
      {modifier : Option Token} (hkeyword : keyword.isWord "SELECT")
      (hoperator : readOperator ts = (operator, us)) (hmodifier : readModifier us = (modifier, others))
      (hne : others.takeWhile (!endsResult ·) ≠ []) :
      ReadsResult (keyword :: ts) (.select modifier (others.takeWhile (!endsResult ·))) operator
        (others.dropWhile (!endsResult ·))
  | template {keyword brace : Token} {ts others inner rest : List Token} {operator : OutputOperator}
      (hkeyword : keyword.isWord "CONSTRUCT")
      (hoperator : readOperator ts = (operator, brace :: others)) (hopen : brace.isPunct "\x7b")
      (hinner : BalancedReading 0 others inner rest) :
      ReadsResult (keyword :: ts) (.construct (some inner)) operator rest
  | construct {keyword : Token} {ts rest : List Token} {operator : OutputOperator}
      (hkeyword : keyword.isWord "CONSTRUCT") (hoperator : readOperator ts = (operator, rest))
      (hopen : ∀ t ∈ rest.head?, ¬ t.isPunct "\x7b") :
      ReadsResult (keyword :: ts) (.construct none) operator rest
  | ask {keyword : Token} {rest : List Token} (hkeyword : keyword.isWord "ASK") :
      ReadsResult (keyword :: rest) .ask .unspecified rest
  | describe {keyword : Token} {ts : List Token} (hkeyword : keyword.isWord "DESCRIBE")
      (hne : ts.takeWhile (!endsResult ·) ≠ []) :
      ReadsResult (keyword :: ts) (.describe (ts.takeWhile (!endsResult ·))) .unspecified
        (ts.dropWhile (!endsResult ·))

theorem readsResult_of_readResult (h : readResult ts = .ok (form, operator, rest)) :
    ReadsResult ts form operator rest := by
  cases ts with
  | nil => cases h
  | cons keyword ts =>
      unfold readResult at h
      dsimp only at h
      split at h
      · next hselect =>
        split at h
        · cases h
        · next hne =>
          cases h
          exact .select hselect rfl rfl (by simpa using hne)
      split at h
      · next hconstruct =>
        rcases hoperator : readOperator ts with ⟨spoken, us⟩
        rw [hoperator] at h
        cases us with
        | nil =>
            cases h
            exact .construct hconstruct hoperator nofun
        | cons brace others =>
            dsimp only at h
            split at h
            · next hopen =>
              obtain ⟨⟨inner, last⟩, hinner, heq⟩ := bind_eq_ok_iff.mp h
              cases heq
              exact .template hconstruct hoperator hopen (readBalanced_eq_ok_iff.mp hinner)
            · next hopen =>
              cases h
              refine .construct hconstruct hoperator ?_
              rintro _ ⟨⟩
              exact hopen
      split at h
      · next hask =>
        cases h
        exact .ask hask
      split at h
      · next hdescribe =>
        split at h
        · cases h
        · next hne =>
          cases h
          exact .describe hdescribe (by simpa using hne)
      · cases h

theorem ReadsResult.readResult (h : ReadsResult ts form operator rest) :
    readResult ts = .ok (form, operator, rest) := by
  cases h with
  | select hkeyword hoperator hmodifier hne =>
      rw [QueryReader.readResult, if_pos hkeyword, hoperator]
      dsimp only
      rw [hmodifier]
      exact if_neg (mt List.isEmpty_iff.mp hne)
  | template hkeyword hoperator hopen hinner =>
      rw [QueryReader.readResult, isWord_eq hkeyword, isWord_eq hkeyword, if_neg (by decide),
        if_pos (by decide), hoperator]
      dsimp only
      rw [if_pos hopen, readBalanced_eq_ok_iff.mpr hinner]
      rfl
  | construct hkeyword hoperator hopen =>
      rw [QueryReader.readResult, isWord_eq hkeyword, isWord_eq hkeyword, if_neg (by decide),
        if_pos (by decide), hoperator]
      cases rest with
      | nil => rfl
      | cons t rest => exact if_neg (hopen t rfl)
  | ask hkeyword =>
      rw [QueryReader.readResult, isWord_eq hkeyword, isWord_eq hkeyword, isWord_eq hkeyword]
      rfl
  | describe hkeyword hne =>
      rw [QueryReader.readResult, isWord_eq hkeyword, isWord_eq hkeyword, isWord_eq hkeyword,
        isWord_eq hkeyword]
      exact if_neg (mt List.isEmpty_iff.mp hne)

/-- A result is read just if it stands in front in one of these ways. -/
theorem readResult_eq_ok_iff :
    readResult ts = .ok (form, operator, rest) ↔ ReadsResult ts form operator rest :=
  ⟨readsResult_of_readResult, ReadsResult.readResult⟩

theorem readResult_spec (h : readResult ts = .ok (form, operator, rest)) :
    ResultReading form operator ∧ splitResult ts = (form.tokens none, rest) := by
  cases readResult_eq_ok_iff.mp h with
  | @select _ ts _ _ _ _ hkeyword hoperator hmodifier hne =>
      have hselect := @readSelect_spec ts _ _ _ hkeyword (by rw [hoperator, hmodifier]) hne
      rwa [hoperator] at hselect
  | @template _ _ ts _ _ _ _ hkeyword hoperator hopen hinner =>
      refine ⟨.template fun others => readBalanced_eq_ok_iff.mpr (hinner.again others), ?_⟩
      rw [splitResult, isWord_eq hkeyword, isWord_eq hkeyword, if_neg (by decide), if_pos (by decide),
        (readOperator_spec ts).1, hoperator]
      dsimp only
      rw [if_pos hopen, hinner.splitGroup_eq, eq_punct_of_isPunct hopen]
      simp [ResultForm.tokens]
  | @construct _ ts _ _ hkeyword hoperator hopen =>
      refine ⟨.construct, ?_⟩
      rw [splitResult, isWord_eq hkeyword, isWord_eq hkeyword, if_neg (by decide), if_pos (by decide),
        (readOperator_spec ts).1, hoperator]
      cases rest with
      | nil => rfl
      | cons t rest => exact if_neg (hopen t rfl)
  | ask hkeyword =>
      refine ⟨.ask, ?_⟩
      rw [splitResult, isWord_eq hkeyword, isWord_eq hkeyword, isWord_eq hkeyword]
      rfl
  | describe hkeyword hne =>
      refine ⟨.describe hne fun t ht => by simpa using List.mem_takeWhile_imp ht, ?_⟩
      rw [splitResult, isWord_eq hkeyword, isWord_eq hkeyword, isWord_eq hkeyword]
      rfl

theorem ResultReading.unspecified (h : ResultReading form operator)
    (hform : (form.form == .select || form.form == .construct) = false) :
    operator = .unspecified := by
  cases h with
  | select => cases hform
  | template => cases hform
  | construct => cases hform
  | ask => rfl
  | describe => rfl

theorem endsResult_dropWhile (ts : List Token) :
    ∀ t ∈ (ts.dropWhile (!endsResult ·)).head?, endsResult t := by
  intro t ht
  have := List.head?_dropWhile_not (!endsResult ·) ts
  rw [Option.mem_def.mp ht] at this
  simpa using this

/-- What follows the targets of a description begins with a clause or a pattern. -/
theorem endsResult_of_describe {targets : List Token}
    (h : splitResult ts = (ResultForm.tokens none (.describe targets), rest)) :
    ∀ t ∈ rest.head?, endsResult t := by
  cases ts with
  | nil => cases h
  | cons keyword ts =>
      unfold splitResult at h
      dsimp only at h
      split at h
      · simp [ResultForm.tokens] at h
      · split at h
        · split at h
          · split at h <;> simp [ResultForm.tokens] at h
          · simp [ResultForm.tokens] at h
        · split at h
          · simp [ResultForm.tokens] at h
          · cases h
            exact endsResult_dropWhile ts

theorem dropOperator_suffix (ts : List Token) : dropOperator ts <:+ ts := by
  cases ts with
  | nil => exact List.suffix_rfl
  | cons token ts =>
      rw [dropOperator]
      split
      · exact List.suffix_cons _ _
      · exact List.suffix_rfl

theorem splitGroup_append (depth : Nat) (ts : List Token) :
    (splitGroup depth ts).1 ++ (splitGroup depth ts).2 = ts := by
  fun_induction splitGroup depth ts <;> simp_all

theorem lexical_splitResult (hts : ∀ t ∈ ts, t.Lexical) :
    (∀ t ∈ (splitResult ts).1, t.Lexical) ∧ ∀ t ∈ (splitResult ts).2, t.Lexical := by
  have hcut : ∀ {ts : List Token} {word : String}, (∀ t ∈ ts, t.Lexical) → word ∈ keywords →
      (∀ t ∈ .word word :: ts.takeWhile (!endsResult ·), t.Lexical) ∧
        ∀ t ∈ ts.dropWhile (!endsResult ·), t.Lexical := by
    intro ts word hts hword
    refine ⟨List.forall_mem_cons.mpr ⟨lexical_keyword hword, fun t ht => ?_⟩, fun t ht => ?_⟩
    · exact hts t ((List.takeWhile_sublist _).subset ht)
    · exact hts t ((List.dropWhile_sublist _).subset ht)
  cases ts with
  | nil => exact ⟨nofun, nofun⟩
  | cons keyword ts =>
      obtain ⟨-, htail⟩ := List.forall_mem_cons.mp hts
      have hrest : ∀ t ∈ dropOperator ts, t.Lexical := fun t ht =>
        htail t ((dropOperator_suffix ts).subset ht)
      unfold splitResult
      dsimp only
      split
      · exact hcut hrest (by decide)
      · split
        · split
          · next token others hothers =>
            rw [hothers] at hrest
            obtain ⟨htoken, hothers⟩ := List.forall_mem_cons.mp hrest
            split
            · rw [← splitGroup_append 0 others] at hothers
              obtain ⟨htemplate, hlast⟩ := List.forall_mem_append.mp hothers
              exact ⟨List.forall_mem_cons.mpr ⟨lexical_keyword (by decide),
                List.forall_mem_cons.mpr ⟨htoken, htemplate⟩⟩, hlast⟩
            · exact ⟨List.forall_mem_singleton.mpr (lexical_keyword (by decide)), hrest⟩
          · exact ⟨List.forall_mem_singleton.mpr (lexical_keyword (by decide)), nofun⟩
        · split
          · exact ⟨List.forall_mem_singleton.mpr (lexical_keyword (by decide)), htail⟩
          · exact hcut htail (by decide)

theorem readModifier_tokens {modifier : Option Token} (hmodifier : ∀ t ∈ modifier, isModifier t)
    (hplain : modifier = none → ∀ t ∈ rest.head?, ¬ isModifier t) :
    readModifier (modifier.toList ++ rest) = (modifier, rest) := by
  cases modifier with
  | none =>
      cases rest with
      | nil => rfl
      | cons t rest =>
          rw [Option.toList_none, List.nil_append, readModifier, if_neg (hplain rfl t rfl)]
  | some token =>
      rw [Option.toList_some, List.singleton_append, readModifier, if_pos (hmodifier token rfl)]

/-- Whether a token begins the clauses of a query as they are written. -/
def beginsClause (token : Token) : Bool := token.isWord "FROM" || token.isWord "WHERE"

theorem isPunct_of_beginsClause {t : Token} {mark : String} (h : beginsClause t) :
    t.isPunct mark = false := by
  rw [beginsClause, Bool.or_eq_true] at h
  rcases h with h | h <;> simpa using isPunct_of_isWord h

theorem takeWhile_result {inner : List Token} (hinner : ∀ t ∈ inner, ¬ endsResult t)
    (hrest : ∀ t ∈ rest.head?, beginsClause t) :
    (inner ++ rest).takeWhile (!endsResult ·) = inner ∧
      (inner ++ rest).dropWhile (!endsResult ·) = rest := by
  have hall : ∀ t ∈ inner, (!endsResult t) = true := fun t ht => by simpa using hinner t ht
  rw [List.takeWhile_append_of_pos hall, List.dropWhile_append_of_pos hall]
  cases rest with
  | nil => exact ⟨List.append_nil _, rfl⟩
  | cons t rest =>
      have hends : endsResult t := by
        have hclause := hrest t rfl
        rw [beginsClause, Bool.or_eq_true] at hclause
        rcases hclause with h | h <;> simp [endsResult, h]
      rw [List.takeWhile_cons_of_neg (by simp [hends]), List.dropWhile_cons_of_neg (by simp [hends])]
      exact ⟨List.append_nil _, rfl⟩

/-- Only a word with the letters of an operator is one. -/
theorem not_isOperator_of_isWord {t : Token} {word : String} (h : t.isWord word)
    (hword : ∀ operator ∈ OutputOperator.named, ¬ operator.keyword?.any (sameLetters word)) :
    ¬ t.isOperator := by
  intro hoperator
  obtain ⟨operator, hmem, hany⟩ := List.any_eq_true.mp hoperator
  obtain ⟨keyword, hkeyword, hsame⟩ := (Option.any_eq_true _ _).mp hany
  rw [isWord_eq h] at hsame
  exact hword operator hmem ((Option.any_eq_true _ _).mpr ⟨keyword, hkeyword, hsame⟩)

theorem not_isOperator_of_beginsClause {t : Token} (h : beginsClause t) : ¬ t.isOperator := by
  rw [beginsClause, Bool.or_eq_true] at h
  rcases h with h | h
  · exact not_isOperator_of_isWord h (by decide)
  · exact not_isOperator_of_isWord h (by decide)

theorem not_isOperator_of_isModifier {t : Token} (h : isModifier t) : ¬ t.isOperator := by
  rw [isModifier, Bool.or_eq_true] at h
  rcases h with h | h
  · exact not_isOperator_of_isWord h (by decide)
  · exact not_isOperator_of_isWord h (by decide)

/-- An operator is read where it is written, and nothing is taken for one where it is not. -/
theorem readResult_select {modifier : Option Token} {projection : List Token} {spoken : OutputOperator}
    (h : ResultReading (.select modifier projection) spoken)
    (hspoken : operator = .unspecified → spoken = .unspecified)
    (hrest : ∀ t ∈ rest.head?, beginsClause t) :
    readResult ((ResultForm.select modifier projection).tokens operator.keyword? ++ rest) =
      .ok (.select modifier projection, operator, rest) := by
  cases h with
  | select hne hinner hmodifier hplain hoperator =>
      have hfirst : operator = .unspecified →
          ∀ t ∈ (modifier.toList ++ (projection ++ rest)).head?, ¬ t.isOperator := by
        intro hnone t ht
        refine hoperator (hspoken hnone) t ?_
        obtain ⟨p, ps, rfl⟩ := List.exists_cons_of_ne_nil hne
        cases modifier <;> exact ht
      have hhead : modifier = none → ∀ t ∈ (projection ++ rest).head?, ¬ isModifier t := by
        intro hnone t ht
        refine hplain hnone t ?_
        obtain ⟨p, ps, rfl⟩ := List.exists_cons_of_ne_nil hne
        exact ht
      obtain ⟨htake, hdrop⟩ := takeWhile_result hinner hrest
      have hreads := ReadsResult.select (show (Token.word "SELECT").isWord "SELECT" by decide)
        (readOperator_keyword hfirst) (readModifier_tokens hmodifier hhead) (by rwa [htake])
      rw [htake, hdrop] at hreads
      simpa only [ResultForm.tokens, List.cons_append, List.append_assoc] using hreads.readResult

theorem readResult_construct {template : Option (List Token)} {spoken : OutputOperator}
    (h : ResultReading (.construct template) spoken) (hrest : ∀ t ∈ rest.head?, beginsClause t) :
    readResult ((ResultForm.construct template).tokens operator.keyword? ++ rest) =
      .ok (.construct template, operator, rest) := by
  have hconstruct : (Token.word "CONSTRUCT").isWord "CONSTRUCT" := by decide
  cases h with
  | @template template _ hbalanced =>
      have hfirst : operator = .unspecified →
          ∀ t ∈ (.punct "\x7b" :: (template ++ .punct "\x7d" :: rest)).head?, ¬ t.isOperator := by
        rintro - t ⟨⟩
        decide
      have hreads := ReadsResult.template hconstruct (readOperator_keyword hfirst) (by decide)
        (readBalanced_eq_ok_iff.mp (hbalanced rest))
      simpa [ResultForm.tokens] using hreads.readResult
  | construct =>
      have hfirst : operator = .unspecified → ∀ t ∈ rest.head?, ¬ t.isOperator := fun _ t ht =>
        not_isOperator_of_beginsClause (hrest t ht)
      have hreads := ReadsResult.construct hconstruct (readOperator_keyword hfirst)
        fun t ht => Bool.eq_false_iff.mp (isPunct_of_beginsClause (hrest t ht))
      simpa [ResultForm.tokens] using hreads.readResult

theorem readResult_describe {targets : List Token} {spoken : OutputOperator}
    (h : ResultReading (.describe targets) spoken) (hrest : ∀ t ∈ rest.head?, beginsClause t)
    (keyword : Option String) :
    readResult ((ResultForm.describe targets).tokens keyword ++ rest) =
      .ok (.describe targets, .unspecified, rest) := by
  cases h with
  | describe hne hinner =>
      obtain ⟨htake, hdrop⟩ := takeWhile_result hinner hrest
      have hreads := @ReadsResult.describe (.word "DESCRIBE") (targets ++ rest) (by decide)
        (by rwa [htake])
      rw [htake, hdrop] at hreads
      exact hreads.readResult

/-- What a query answers with is read from its tokens. -/
theorem readResult_tokens {query : Query} {spoken : OutputOperator}
    (h : ResultReading query.body.form spoken)
    (hspoken : query.operator = .unspecified → spoken = .unspecified)
    (hrest : ∀ t ∈ rest.head?, beginsClause t) :
    readResult (query.body.form.tokens query.resultKeyword ++ rest) =
      .ok (query.body.form,
        if query.resultHasOperator then query.operator else .unspecified, rest) := by
  generalize hform : query.body.form = form at h ⊢
  have hholds : query.resultHasOperator = (form.form == .select || form.form == .construct) := by
    rw [Query.resultHasOperator, Query.form, hform]
  have hkeyword : query.resultHasOperator = true → query.resultKeyword = query.operator.keyword? :=
    fun hcases => by rw [Query.resultKeyword, if_pos hcases]
  cases form with
  | select modifier projection =>
      have hholds : query.resultHasOperator = true := hholds
      rw [if_pos hholds, hkeyword hholds]
      exact readResult_select h hspoken hrest
  | construct template =>
      have hholds : query.resultHasOperator = true := hholds
      rw [if_pos hholds, hkeyword hholds]
      exact readResult_construct h hrest
  | ask =>
      rw [hholds]
      rfl
  | describe targets =>
      have hholds : query.resultHasOperator = false := hholds
      rw [hholds]
      exact readResult_describe h hrest _

end QueryReader

end StreamQuery
