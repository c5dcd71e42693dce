import StreamQuery.Proofs.Except
import StreamQuery.Proofs.Query.BaseTokens
import StreamQuery.Proofs.Query.Page

/-! # Reading groups

A group is read with a stack of open groups, and written again as its members stand. What reading
and writing change is the header of a window block alone: its keyword is chosen by the writer and
its name is abbreviated.
-/

namespace StreamQuery

open Token

/-- The tokens of a group, with a keyword and an abbreviated name in front of window blocks. -/
def Pattern.tokens (keyword : String) (prefixes : PrefixMapping) : Pattern → List Token
  | nil => []
  | run ts rest => ts ++ rest.tokens keyword prefixes
  | group inner rest =>
    .punct "\x7b" :: inner.tokens keyword prefixes ++
      .punct "\x7d" :: rest.tokens keyword prefixes
  | window name inner rest =>
    .word keyword :: name.nameToken prefixes :: .punct "\x7b" :: inner.tokens keyword prefixes ++
      .punct "\x7d" :: rest.tokens keyword prefixes

namespace QueryReader

variable {keyword : String} {prefixes : PrefixMapping}

/-- What opens a group. -/
def OpenGroup.opening (keyword : String) (prefixes : PrefixMapping) (group : OpenGroup) :
    List Token :=
  match group.window with
  | some name => [.word keyword, name.nameToken prefixes, .punct "\x7b"]
  | none => [.punct "\x7b"]

/-- The tokens of open groups, from behind the brace of the outermost one. -/
def openTokens (keyword : String) (prefixes : PrefixMapping) (group : OpenGroup) :
    List OpenGroup → List Token
  | [] => group.members.tokens keyword prefixes
  | parent :: outer =>
    openTokens keyword prefixes parent outer ++ group.opening keyword prefixes ++
      group.members.tokens keyword prefixes

theorem tokens_append (p q : Pattern) : (p.append q).tokens keyword prefixes =
    p.tokens keyword prefixes ++ q.tokens keyword prefixes := by
  induction p with
  | nil => rfl
  | run ts rest ih => simp [Pattern.append, Pattern.tokens, ih]
  | group inner rest _ ih => simp [Pattern.append, Pattern.tokens, ih]
  | window name inner rest _ ih => simp [Pattern.append, Pattern.tokens, ih]

theorem tokens_pushToken (t : Token) (p : Pattern) : (p.pushToken t).tokens keyword prefixes =
    p.tokens keyword prefixes ++ [t] := by
  induction p with
  | nil => rfl
  | run ts rest ih =>
      cases rest with
      | nil => simp [Pattern.pushToken, Pattern.tokens]
      | _ => simp_all [Pattern.pushToken, Pattern.tokens]
  | group inner rest _ ih => simp [Pattern.pushToken, Pattern.tokens, ih]
  | window name inner rest _ ih => simp [Pattern.pushToken, Pattern.tokens, ih]

theorem openTokens_push (t : Token) (group : OpenGroup) (outer : List OpenGroup) :
    openTokens keyword prefixes (group.push t) outer =
      openTokens keyword prefixes group outer ++ [t] := by
  cases outer with
  | nil => exact tokens_pushToken t group.members
  | cons parent outer =>
      simp [openTokens, OpenGroup.push, OpenGroup.opening, tokens_pushToken]

theorem openTokens_attach (parent group : OpenGroup) (outer : List OpenGroup) :
    openTokens keyword prefixes (parent.attach group) outer =
      openTokens keyword prefixes group (parent :: outer) ++ [.punct "\x7d"] := by
  have hmembers : (parent.attach group).members.tokens keyword prefixes =
      parent.members.tokens keyword prefixes ++ (group.opening keyword prefixes ++
        group.members.tokens keyword prefixes ++ [.punct "\x7d"]) := by
    unfold OpenGroup.attach OpenGroup.opening
    cases group.window <;> simp [tokens_append, Pattern.tokens]
  cases outer with
  | nil => simp [openTokens, hmembers]
  | cons grandparent outer =>
      have hopening : (parent.attach group).opening keyword prefixes =
          parent.opening keyword prefixes := rfl
      simp [openTokens, hmembers, hopening]

theorem openTokens_start (window : Option Term) (group : OpenGroup) (outer : List OpenGroup) :
    openTokens keyword prefixes (.start window) (group :: outer) =
      openTokens keyword prefixes group outer ++
        OpenGroup.opening keyword prefixes (.start window) := by
  simp [openTokens, OpenGroup.start, Pattern.tokens]

/-! ### The steps of a reader -/

/-- A token that joins the run in front of it: no brace, and not the beginning of a window block. -/
structure JoinsRun (token : Token) (rest : List Token) : Prop where
  not_close : ¬ token.isPunct "\x7d"
  not_open : ¬ token.isPunct "\x7b"
  not_window : token.isWord "WINDOW" →
    ∀ name brace others, rest = name :: brace :: others → ¬ brace.isPunct "\x7b"

section Steps

variable {group parent : OpenGroup} {outer : List OpenGroup} {token name brace : Token}
  {rest : List Token} {depth : Nat}

theorem relabel_close (h : token.isPunct "\x7d") :
    relabel keyword prefixes 0 (token :: rest) = token :: rest := by
  rw [relabel.eq_def]
  exact if_pos h

theorem relabel_close_succ (h : token.isPunct "\x7d") :
    relabel keyword prefixes (depth + 1) (token :: rest) =
      token :: relabel keyword prefixes depth rest := by
  rw [relabel.eq_def]
  exact if_pos h

theorem relabel_open (h : token.isPunct "\x7b") : relabel keyword prefixes depth (token :: rest) =
    token :: relabel keyword prefixes (depth + 1) rest := by
  obtain rfl := eq_punct_of_isPunct h
  rw [relabel.eq_def]
  rfl

theorem relabel_window (h : token.isWord "WINDOW") (hbrace : brace.isPunct "\x7b") :
    relabel keyword prefixes depth (token :: name :: brace :: rest) =
      .word keyword :: shortName prefixes name :: brace ::
        relabel keyword prefixes (depth + 1) rest := by
  have hpunct : ∀ mark, token.isPunct mark = false := fun mark =>
    Bool.eq_false_iff.mpr (isPunct_of_isWord h)
  rw [relabel.eq_def]
  simp [hpunct, h, hbrace]

theorem relabel_join (h : JoinsRun token rest) : relabel keyword prefixes depth (token :: rest) =
    token :: relabel keyword prefixes depth rest := by
  rw [relabel.eq_def]
  dsimp only
  rw [if_neg h.not_close, if_neg h.not_open]
  split
  · next hword =>
    split
    · next name brace others => rw [if_neg (h.not_window hword name brace others rfl)]
    · rfl
    · rfl
  · rfl

theorem readGroup_close (h : token.isPunct "\x7d") :
    readGroup prefixes group [] (token :: rest) = .ok (group.members, rest) := by
  rw [readGroup.eq_def]
  exact if_pos h

theorem readGroup_close_cons (h : token.isPunct "\x7d") :
    readGroup prefixes group (parent :: outer) (token :: rest) =
      readGroup prefixes (parent.attach group) outer rest := by
  rw [readGroup.eq_def]
  exact if_pos h

theorem readGroup_open (h : token.isPunct "\x7b") :
    readGroup prefixes group outer (token :: rest) =
      readGroup prefixes (.start none) (group :: outer) rest := by
  obtain rfl := eq_punct_of_isPunct h
  rw [readGroup.eq_def]
  rfl

theorem readGroup_window {term : Term} (h : token.isWord "WINDOW")
    (hname : resolve prefixes name = .ok term) (hbrace : brace.isPunct "\x7b") :
    readGroup prefixes group outer (token :: name :: brace :: rest) =
      readGroup prefixes (.start (some term)) (group :: outer) rest := by
  have hpunct : ∀ mark, token.isPunct mark = false := fun mark =>
    Bool.eq_false_iff.mpr (isPunct_of_isWord h)
  rw [readGroup.eq_def]
  simp only [hpunct, Bool.false_eq_true, if_false, h, if_true, hbrace, hname]
  rfl

theorem readGroup_join (h : JoinsRun token rest) : readGroup prefixes group outer (token :: rest) =
    readGroup prefixes (group.push token) outer rest := by
  rw [readGroup.eq_def]
  dsimp only
  rw [if_neg h.not_close, if_neg h.not_open]
  split
  · next hword =>
    split
    · next name brace others => rw [if_neg (h.not_window hword name brace others rfl)]
    · rfl
    · rfl
  · rfl

end Steps

/-- How a group is read: one case for each step of the reader. -/
inductive GroupReading (prefixes : PrefixMapping) (p : Pattern) (rest : List Token) :
    OpenGroup → List OpenGroup → List Token → Prop where
  | done {group : OpenGroup} {token : Token} (h : token.isPunct "\x7d") (hp : group.members = p) :
      GroupReading prefixes p rest group [] (token :: rest)
  | close {group parent : OpenGroup} {outer : List OpenGroup} {token : Token} {ts : List Token}
      (h : token.isPunct "\x7d") (hrest : GroupReading prefixes p rest (parent.attach group) outer ts) :
      GroupReading prefixes p rest group (parent :: outer) (token :: ts)
  | opened {group : OpenGroup} {outer : List OpenGroup} {token : Token} {ts : List Token}
      (h : token.isPunct "\x7b")
      (hrest : GroupReading prefixes p rest (.start none) (group :: outer) ts) :
      GroupReading prefixes p rest group outer (token :: ts)
  | window {group : OpenGroup} {outer : List OpenGroup} {token name brace : Token}
      {ts : List Token} {term : Term} (h : token.isWord "WINDOW")
      (hname : resolve prefixes name = .ok term) (hbrace : brace.isPunct "\x7b")
      (hrest : GroupReading prefixes p rest (.start (some term)) (group :: outer) ts) :
      GroupReading prefixes p rest group outer (token :: name :: brace :: ts)
  | join {group : OpenGroup} {outer : List OpenGroup} {token : Token} {ts : List Token}
      (h : JoinsRun token ts) (hrest : GroupReading prefixes p rest (group.push token) outer ts) :
      GroupReading prefixes p rest group outer (token :: ts)

theorem GroupReading.of_readGroup {group : OpenGroup} {outer : List OpenGroup}
    {ts rest : List Token} {p : Pattern} (h : readGroup prefixes group outer ts = .ok (p, rest)) :
    GroupReading prefixes p rest group outer ts := by
  fun_induction readGroup prefixes group outer ts with
  | case1 => cases h
  | case2 group token rest hclose =>
      cases h
      exact .done hclose rfl
  | case3 group token rest hclose parent outer ih => exact .close hclose (ih h)
  | case4 group outer token rest hclose hopen ih => exact .opened hopen (ih h)
  | case5 group outer token hclose hopen hword name brace others hbrace ih =>
      obtain ⟨term, hterm, hinner⟩ := bind_eq_ok_iff.mp h
      exact .window hword hterm hbrace (ih term hinner)
  | case6 group outer token hclose hopen hword name brace others hbrace ih =>
      -- without a brace behind its name, the word opens no block
      refine .join ⟨hclose, hopen, fun _ name' brace' others' heq => ?_⟩ (ih h)
      cases heq
      exact hbrace
  | case7 group outer token hclose hopen hword name ih =>
      exact .join ⟨hclose, hopen, nofun⟩ (ih h)
  | case8 group outer token hclose hopen hword ih =>
      exact .join ⟨hclose, hopen, nofun⟩ (ih h)
  | case9 group outer token rest hclose hopen hword ih =>
      exact .join ⟨hclose, hopen, fun hwindow => absurd hwindow hword⟩ (ih h)

theorem GroupReading.readGroup_eq {group : OpenGroup} {outer : List OpenGroup}
    {ts rest : List Token} {p : Pattern} (h : GroupReading prefixes p rest group outer ts) :
    readGroup prefixes group outer ts = .ok (p, rest) := by
  induction h with
  | done hclose hp => rw [readGroup_close hclose, hp]
  | close hclose _ ih => rw [readGroup_close_cons hclose, ih]
  | opened hopen _ ih => rw [readGroup_open hopen, ih]
  | window hword hname hbrace _ ih => rw [readGroup_window hword hname hbrace, ih]
  | join hjoins _ ih => rw [readGroup_join hjoins, ih]

/-- A pattern has the tokens that it was read from, apart from the headers of window blocks. -/
theorem GroupReading.tokens_eq {group : OpenGroup} {outer : List OpenGroup} {ts rest : List Token}
    {p : Pattern} (h : GroupReading prefixes p rest group outer ts) :
    openTokens keyword prefixes group outer ++ relabel keyword prefixes outer.length ts =
      p.tokens keyword prefixes ++ .punct "\x7d" :: rest := by
  induction h with
  | @done group token hclose hp =>
      rw [List.length_nil, relabel_close hclose, eq_punct_of_isPunct hclose, ← hp]
      rfl
  | @close group parent outer token ts hclose _ ih =>
      rw [List.length_cons, relabel_close_succ hclose, ← ih, openTokens_attach,
        eq_punct_of_isPunct hclose]
      simp
  | @opened group outer token ts hopen _ ih =>
      rw [relabel_open hopen, ← ih, openTokens_start, eq_punct_of_isPunct hopen]
      simp [OpenGroup.opening, OpenGroup.start]
  | @window group outer token name brace ts term hword hname hbrace _ ih =>
      have hshort : shortName prefixes name = term.nameToken prefixes := by
        rw [shortName, hname]
      rw [relabel_window hword hbrace, hshort, ← ih, openTokens_start, eq_punct_of_isPunct hbrace]
      simp [OpenGroup.opening, OpenGroup.start]
  | @join group outer token ts hjoins _ ih =>
      rw [relabel_join hjoins, ← ih, openTokens_push]
      simp

/-- A whole group has the tokens that it was read from, apart from the headers of window blocks. -/
theorem GroupReading.relabel_eq (keyword : String) {ts rest : List Token} {p : Pattern}
    (h : GroupReading prefixes p rest (.start none) [] ts) :
    relabel keyword prefixes 0 ts = p.tokens keyword prefixes ++ .punct "\x7d" :: rest :=
  h.tokens_eq

/-! ### Reading a group again -/

theorem isPunct_of_shortName {name : Token} {mark : String}
    (h : (shortName prefixes name).isPunct mark) : name.isPunct mark := by
  unfold shortName at h
  split at h
  · rw [Term.isPunct_nameToken] at h
    cases h
  · exact h

theorem relabel_singleton (depth : Nat) (token : Token) :
    relabel keyword prefixes depth [token] = [token] := by
  rw [relabel.eq_def]
  dsimp only
  split
  · split <;> rfl
  · split
    · rfl
    · split <;> rfl

/-- What stands first is a brace only if it was one before. -/
theorem relabel_cons (depth : Nat) (token : Token) (rest : List Token) :
    ∃ token' rest', relabel keyword prefixes depth (token :: rest) = token' :: rest' ∧
      (token'.isPunct "\x7b" → token.isPunct "\x7b") := by
  by_cases hjoins : JoinsRun token rest
  · exact ⟨_, _, relabel_join hjoins, id⟩
  rw [relabel.eq_def]
  dsimp only
  repeat' split
  all_goals exact ⟨_, _, rfl, by first | exact id | exact nofun⟩

/-- What stands second is a brace only if it was one before. -/
theorem relabel_cons_cons (depth : Nat) (first second : Token) (rest : List Token) :
    ∃ first' second' rest', relabel keyword prefixes depth (first :: second :: rest) =
      first' :: second' :: rest' ∧ (second'.isPunct "\x7b" → second.isPunct "\x7b") := by
  have hcons : ∀ depth, ∃ first' second' rest',
      first :: relabel keyword prefixes depth (second :: rest) = first' :: second' :: rest' ∧
        (second'.isPunct "\x7b" → second.isPunct "\x7b") := by
    intro depth
    obtain ⟨second', rest', htail, hbrace⟩ := relabel_cons depth second rest
    exact ⟨first, second', rest', by rw [htail], hbrace⟩
  rw [relabel.eq_def]
  dsimp only
  split
  · split
    · exact ⟨_, _, _, rfl, id⟩
    · exact hcons _
  · split
    · exact hcons _
    · split
      · split
        · next name brace others heq =>
          cases heq
          split
          · exact ⟨_, _, _, rfl, isPunct_of_shortName⟩
          · exact hcons _
        · next name heq =>
          cases heq
          exact hcons _
        · next heq => cases heq
      · exact hcons _

/-- A token that joins a run still does so in front of other headers. -/
theorem JoinsRun.relabel {token : Token} {rest : List Token} (h : JoinsRun token rest)
    (depth : Nat) : JoinsRun token (relabel keyword prefixes depth rest) where
  not_close := h.not_close
  not_open := h.not_open
  not_window hword name brace others heq hbrace := by
    -- what stands second decides, and it needs two tokens to be there
    match rest, h, heq with
    | [], _, heq => cases heq
    | [single], _, heq =>
      rw [relabel_singleton] at heq
      cases heq
    | first :: second :: rest, h, heq =>
      obtain ⟨first', second', rest', hcons, hsecond⟩ := relabel_cons_cons depth first second rest
      rw [hcons] at heq
      cases heq
      exact h.not_window hword first second rest rfl (hsecond hbrace)

/-- A group is read again from what is written of it. -/
theorem GroupReading.relabel {group : OpenGroup} {outer : List OpenGroup} {ts rest : List Token}
    {p : Pattern}
    (hnames : ∀ name term, resolve prefixes name = .ok term →
      resolve prefixes (term.nameToken prefixes) = .ok term)
    (h : GroupReading prefixes p rest group outer ts) :
    GroupReading prefixes p rest group outer (relabel "WINDOW" prefixes outer.length ts) := by
  induction h with
  | done hclose hp =>
      rw [List.length_nil, relabel_close hclose]
      exact .done hclose hp
  | close hclose _ ih =>
      rw [List.length_cons, relabel_close_succ hclose]
      exact .close hclose ih
  | opened hopen _ ih =>
      rw [relabel_open hopen]
      exact .opened hopen ih
  | @window group outer token name brace ts term hword hname hbrace _ ih =>
      rw [relabel_window hword hbrace, shortName, hname]
      exact .window (by decide) (hnames name term hname) hbrace ih
  | join hjoins _ ih =>
      rw [relabel_join hjoins]
      exact .join (hjoins.relabel _) ih

/-- A whole group is read from its tokens. -/
theorem GroupReading.readGroup_tokens
    (hnames : ∀ name term, resolve prefixes name = .ok term →
      resolve prefixes (term.nameToken prefixes) = .ok term)
    {ts rest : List Token} {p : Pattern} (h : GroupReading prefixes p rest (.start none) [] ts) :
    readGroup prefixes (.start none) [] (p.tokens "WINDOW" prefixes ++ .punct "\x7d" :: rest) =
      .ok (p, rest) := by
  rw [← h.relabel_eq]
  exact (h.relabel hnames).readGroup_eq

/-! ### Writing a group -/

theorem lexical_shortName (hprefixes : prefixes.Declared) {name : Token} (h : name.Lexical) :
    (shortName prefixes name).Lexical := by
  unfold shortName
  split
  · next term hterm => exact lexical_nameToken hprefixes h hterm
  · exact h

theorem lexical_relabel (hkeyword : (Token.word keyword).Lexical) (hprefixes : prefixes.Declared)
    (depth : Nat) {ts : List Token} (hts : ∀ t ∈ ts, t.Lexical) :
    ∀ t ∈ relabel keyword prefixes depth ts, t.Lexical := by
  fun_induction relabel keyword prefixes depth ts with
  | case1 => exact hts
  | case2 => exact hts
  | case5 depth token _ _ _ name brace others _ ih =>
      simp only [List.forall_mem_cons] at hts ⊢
      exact ⟨hkeyword, lexical_shortName hprefixes hts.2.1, hts.2.2.1, ih hts.2.2.2⟩
  | case8 => exact hts
  | _ =>
      rename_i ih
      obtain ⟨ht, htail⟩ := List.forall_mem_cons.mp hts
      exact List.forall_mem_cons.mpr ⟨ht, ih htail⟩

/-- The tokens of a group that was read, and what is left behind it, are tokens. -/
theorem GroupReading.lexical (hkeyword : (Token.word keyword).Lexical)
    (hprefixes : prefixes.Declared) {ts rest : List Token} {p : Pattern}
    (h : GroupReading prefixes p rest (.start none) [] ts) (hts : ∀ t ∈ ts, t.Lexical) :
    (∀ t ∈ p.tokens keyword prefixes, t.Lexical) ∧ ∀ t ∈ rest, t.Lexical := by
  have hall := lexical_relabel hkeyword hprefixes 0 hts
  rw [h.relabel_eq] at hall
  obtain ⟨hinner, hrest⟩ := List.forall_mem_append.mp hall
  exact ⟨hinner, (List.forall_mem_cons.mp hrest).2⟩

end QueryReader

namespace Pattern

variable {keyword : String} {prefixes : PrefixMapping}

/-- The runs of tokens of a group and of the groups inside. -/
def runs : Pattern → List (List Token)
  | nil => []
  | run ts rest => ts :: rest.runs
  | group inner rest => inner.runs ++ rest.runs
  | window _ inner rest => inner.runs ++ rest.runs

/-- The tokens of a group, with given tokens in front of window blocks. -/
def headedTokens (opening : Term → List Token) : Pattern → List Token
  | nil => []
  | run ts rest => ts ++ rest.headedTokens opening
  | group inner rest =>
    .punct "\x7b" :: inner.headedTokens opening ++ .punct "\x7d" :: rest.headedTokens opening
  | window name inner rest =>
    opening name ++ .punct "\x7b" :: inner.headedTokens opening ++
      .punct "\x7d" :: rest.headedTokens opening

theorem headedTokens_eq (keyword : String) (prefixes : PrefixMapping) (p : Pattern) :
    p.headedTokens (fun name => [.word keyword, name.nameToken prefixes]) =
      p.tokens keyword prefixes := by
  induction p with
  | nil => rfl
  | run ts rest ih => rw [headedTokens, tokens, ih]
  | group inner rest ihinner ihrest => rw [headedTokens, tokens, ihinner, ihrest]
  | window name inner rest ihinner ihrest =>
      rw [headedTokens, tokens, ihinner, ihrest]
      rfl

/-- What stands in the runs of a group are tokens of the group. -/
theorem runs_subset {p : Pattern} {ts : List Token} (h : ts ∈ p.runs) :
    ∀ t ∈ ts, t ∈ p.tokens keyword prefixes := by
  intro t ht
  induction p with
  | nil => cases h
  | run us rest ih =>
      rcases List.mem_cons.mp h with rfl | h
      · exact List.mem_append_left _ ht
      · exact List.mem_append_right _ (ih h)
  | group inner rest ihinner ihrest =>
      rcases List.mem_append.mp h with h | h
      · simp [tokens, ihinner h]
      · simp [tokens, ihrest h]
  | window name inner rest ihinner ihrest =>
      rcases List.mem_append.mp h with h | h
      · simp [tokens, ihinner h]
      · simp [tokens, ihrest h]

/-- What stands in front of a window block are tokens of the group. -/
theorem opening_subset {p : Pattern} {name : Term} (h : name ∈ p.windowNames) :
    ∀ t ∈ [.word keyword, name.nameToken prefixes], t ∈ p.tokens keyword prefixes := by
  intro t ht
  induction p with
  | nil => cases h
  | run us rest ih => exact List.mem_append_right _ (ih h)
  | group inner rest ihinner ihrest =>
      rw [windowNames, windowBlocks, List.map_append] at h
      rcases List.mem_append.mp h with h | h
      · simp [tokens, ihinner h]
      · simp [tokens, ihrest h]
  | window name' inner rest ihinner ihrest =>
      rw [windowNames, windowBlocks, List.map_append, List.map_cons] at h
      rcases List.mem_append.mp h with h | h
      · rcases List.mem_cons.mp h with rfl | h
        · rcases List.mem_cons.mp ht with rfl | ht
          · simp [tokens]
          · simp [tokens, List.mem_singleton.mp ht]
        · simp [tokens, ihinner h]
      · simp [tokens, ihrest h]

/-- A group is written with the tokens of its runs, and with those of the headers of its blocks. -/
theorem written_headed {header : Term → Option String} {opening : Term → List Token} {p : Pattern}
    (hlexical : ∀ ts ∈ p.runs, ∀ t ∈ ts, t.Lexical) (hruns : ∀ ts ∈ p.runs, Separable ts)
    (hheader : ∀ name ∈ p.windowNames, Written ((header name).toList.map Mark.word) (opening name)) :
    Written (p.marks header) (p.headedTokens opening) := by
  induction p with
  | nil => exact .nil
  | run ts rest ih =>
      obtain ⟨hts, htail⟩ := List.forall_mem_cons.mp hlexical
      obtain ⟨hrun, hrest⟩ := List.forall_mem_cons.mp hruns
      exact (Mark.written_tokens hts hrun).append (ih htail hrest hheader)
  | group inner rest ihinner ihrest =>
      obtain ⟨hlexinner, hlexrest⟩ := List.forall_mem_append.mp hlexical
      obtain ⟨hinner, hrest⟩ := List.forall_mem_append.mp hruns
      rw [windowNames, windowBlocks, List.map_append] at hheader
      obtain ⟨hheadinner, hheadrest⟩ := List.forall_mem_append.mp hheader
      have hwritten := (ihinner hlexinner hinner hheadinner).braces.append
        (ihrest hlexrest hrest hheadrest)
      simpa [headedTokens, Pattern.marks] using hwritten
  | window name inner rest ihinner ihrest =>
      obtain ⟨hlexinner, hlexrest⟩ := List.forall_mem_append.mp hlexical
      obtain ⟨hinner, hrest⟩ := List.forall_mem_append.mp hruns
      rw [windowNames, windowBlocks, List.map_append, List.map_cons] at hheader
      obtain ⟨hheadblock, hheadrest⟩ := List.forall_mem_append.mp hheader
      obtain ⟨hheading, hheadinner⟩ := List.forall_mem_cons.mp hheadblock
      have hblock := hheading.append ((ihinner hlexinner hinner hheadinner).braces.append
        (ihrest hlexrest hrest hheadrest).newline)
      have hwritten := hblock.newline
      simpa [headedTokens, Pattern.marks] using hwritten

/-- The header of a window block is written with its keyword and its abbreviated name. -/
theorem written_header {p : Pattern} (hlexical : ∀ t ∈ p.tokens keyword prefixes, t.Lexical)
    {name : Term} (hname : name ∈ p.windowNames) :
    Written ((some (keyword ++ " " ++ name.queryText prefixes)).toList.map Mark.word)
      [.word keyword, name.nameToken prefixes] := by
  obtain ⟨hword, hnames⟩ := List.forall_mem_cons.mp fun t ht => hlexical t (opening_subset hname t ht)
  have hname := List.forall_mem_singleton.mp hnames
  have hheading : Reads (keyword ++ " " ++ name.queryText prefixes).toList
      ([.word keyword] ++ [name.nameToken prefixes]) := by
    rw [String.toList_append, String.toList_append, List.append_assoc, ← Term.text_nameToken]
    exact (Reads.token hword).append (.token hname)
  exact .word hheading .nil

end Pattern

end StreamQuery
