import Mathlib.Data.List.Chain
import StreamQuery.Proofs.Pattern.Graphs
import StreamQuery.Proofs.Query.Group

/-! # Dots between the triples of inlined graphs

The dots that the removal of graphs puts in do not stand behind other dots. Whether one of them comes to
stand in front of another dot depends on what follows a graph in the source, which is not looked at when
the graph is put in the place of its block.
-/

namespace StreamQuery

/-- A sign of a written group: a brace or a token. -/
inductive Sign where
  | opening
  | closing
  | token (token : Token)
  deriving DecidableEq

namespace Sign

/-- The dot that ends a triple. -/
abbrev dot : Sign := .token (.punct ".")

/-- The token that a sign is written as. -/
def written : Sign → Token
  | opening => .punct "\x7b"
  | closing => .punct "\x7d"
  | token t => t

/-- A dot ends something: it follows neither another dot nor an opening brace. -/
def Follows (before next : Sign) : Prop := next = .dot → before ≠ .dot ∧ before ≠ .opening

instance : DecidableRel Follows := fun before next =>
  inferInstanceAs (Decidable (next = .dot → before ≠ .dot ∧ before ≠ .opening))

end Sign

namespace Pattern

/-- The signs of a group, with given tokens in front of window blocks. -/
def signs (header : Term → List Token) : Pattern → List Sign
  | nil => []
  | run tokens rest => tokens.map .token ++ rest.signs header
  | group inner rest => .opening :: (inner.signs header ++ .closing :: rest.signs header)
  | window name inner rest =>
    (header name).map .token ++
      .opening :: (inner.signs header ++ .closing :: rest.signs header)

/-- A group without an empty statement: no dot stands behind another or behind an opening brace, the one
of the group itself included. -/
def Clean (header : Term → List Token) (p : Pattern) : Prop :=
  (.opening :: p.signs header).IsChain Sign.Follows

/-- Whether a dot stands in front of everything else. -/
def startsWithDot : Pattern → Bool
  | run [] rest => rest.startsWithDot
  | run (first :: _) _ => first == .punct "."
  | _ => false

/-- Whether tokens stand behind everything else. -/
def endsInRun : Pattern → Bool
  | nil => false
  | run tokens nil => !tokens.isEmpty
  | run _ rest | group _ rest | window _ _ rest => rest.endsInRun

/-- Every group inside a window and behind the header of a graph meets a condition, together with what
follows it. If `loose`, then so does a group directly behind such a group. -/
def EveryHeaded (holds : Pattern → Pattern → Prop) (loose : Bool) (inside : Option Term)
    (headed : Bool) : Pattern → Prop
  | nil => True
  | run tokens rest => rest.EveryHeaded holds loose inside (splitGraphHeader? tokens).isSome
  | group inner rest =>
    (inside.isSome → headed → holds inner rest) ∧ inner.EveryHeaded holds loose inside false ∧
      rest.EveryHeaded holds loose inside (headed && loose)
  | window name inner rest =>
    inner.EveryHeaded holds loose (some name) false ∧ rest.EveryHeaded holds loose inside false

variable {header : Term → List Token} {inside : Option Term} {p q done done' : Pattern}
  {graph : Token}

/-- The tokens of a group are its signs as they are written. -/
theorem headedTokens_eq_map (header : Term → List Token) (p : Pattern) :
    p.headedTokens header = (p.signs header).map Sign.written := by
  have htokens : ∀ ts : List Token, (ts.map Sign.token).map Sign.written = ts := by
    intro ts
    rw [List.map_map]
    exact List.map_id ts
  induction p with
  | nil => rfl
  | run ts rest ih => rw [headedTokens, signs, List.map_append, htokens, ih]
  | group inner rest ihinner ihrest => simp [headedTokens, signs, ihinner, ihrest, Sign.written]
  | window name inner rest ihinner ihrest =>
      rw [headedTokens, signs, List.map_append, htokens, ihinner, ihrest]
      simp [Sign.written]

/-! ### Signs of what is done -/

theorem signs_reverseOnto (p q : Pattern) :
    (p.reverseOnto q).signs header = (p.reverseOnto nil).signs header ++ q.signs header := by
  induction p generalizing q with
  | nil => rfl
  | run ts rest ih => simp [reverseOnto, ih (run _ _), signs]
  | group inner rest _ ih => simp [reverseOnto, ih (group _ _), signs]
  | window name inner rest _ ih => simp [reverseOnto, ih (window _ _ _), signs]

/-- A group that is put behind what is done, in the place of its block. -/
theorem signs_splice (p done : Pattern) :
    ((p.reverseOnto done).reverseOnto nil).signs header =
      (done.reverseOnto nil).signs header ++ p.signs header := by
  rw [reverseOnto_reverseOnto, signs_reverseOnto]
  congr 1
  induction p with
  | nil => rfl
  | run ts rest ih => rw [append, signs, signs, ih]
  | group inner rest _ ih => rw [append, signs, signs, ih]
  | window name inner rest _ ih => rw [append, signs, signs, ih]

theorem signs_of_takeGraphHeader? (h : done.takeGraphHeader? = some (graph, done')) :
    ∃ keyword, keyword.isWord "GRAPH" ∧ (done.reverseOnto nil).signs header =
      (done'.reverseOnto nil).signs header ++ [.token keyword, .token graph] := by
  cases done with
  | run ts rest =>
      obtain ⟨⟨init, graph'⟩, hsplit, heq⟩ := Option.map_eq_some_iff.mp h
      cases heq
      obtain ⟨keyword, rfl, hkeyword⟩ := eq_of_splitGraphHeader? hsplit
      refine ⟨keyword, hkeyword, ?_⟩
      cases init with
      | nil => simp [reverseOnto, signs_reverseOnto rest (run _ _), signs]
      | cons first others => simp [reverseOnto, signs_reverseOnto rest (run _ _), signs]
  | _ => cases h

/-- A dot is only put behind another token. -/
theorem signs_terminate (done : Pattern) :
    (done.terminate.reverseOnto nil).signs header = (done.reverseOnto nil).signs header ∨
      ∃ init t, t ≠ .punct "." ∧ (done.reverseOnto nil).signs header = init ++ [.token t] ∧
        (done.terminate.reverseOnto nil).signs header = init ++ [.token t, .dot] := by
  cases done with
  | run ts rest =>
      rw [terminate]
      split
      · next last hlast =>
        split
        · exact .inl rfl
        · next hdot =>
          obtain ⟨init, rfl⟩ := List.getLast?_eq_some_iff.mp hlast
          refine .inr ⟨(rest.reverseOnto nil).signs header ++ init.map .token, last, ?_, ?_, ?_⟩
          · rintro rfl
            exact hdot rfl
          · simp [reverseOnto, signs_reverseOnto rest (run _ _), signs]
          · simp [reverseOnto, signs_reverseOnto rest (run _ _), signs]
      · exact .inl rfl
  | _ => exact .inl rfl

/-! ### Rows without empty statements -/

theorem follows_of_ne_dot {before next : Sign} (h : next ≠ .dot) : before.Follows next :=
  fun hdot => absurd hdot h

theorem isChain_append_of_head? {before after : List Sign} (hbefore : before.IsChain Sign.Follows)
    (hafter : after.IsChain Sign.Follows) (h : after.head? ≠ some .dot) :
    (before ++ after).IsChain Sign.Follows := by
  refine List.isChain_append.mpr ⟨hbefore, hafter, fun last _ first hfirst => ?_⟩
  refine follows_of_ne_dot fun hdot => h ?_
  rw [← hdot]
  exact hfirst

/-- Whatever stands in front of braces and in them does not matter to what stands behind them. -/
theorem isChain_braces {before inner after : List Sign} :
    (before ++ .opening :: (inner ++ .closing :: after)).IsChain Sign.Follows ↔
      before.IsChain Sign.Follows ∧ (.opening :: inner).IsChain Sign.Follows ∧
        (.closing :: after).IsChain Sign.Follows := by
  constructor
  · intro h
    obtain ⟨hbefore, hbraces, -⟩ := List.isChain_append.mp h
    rw [← List.cons_append] at hbraces
    obtain ⟨hinner, hafter, -⟩ := List.isChain_append.mp hbraces
    exact ⟨hbefore, hinner, hafter⟩
  · rintro ⟨hbefore, hinner, hafter⟩
    exact isChain_append_of_head? hbefore
      (isChain_append_of_head? hinner hafter (by simp)) (by simp)

/-- A group that does not start with a dot, where window blocks do not either. -/
theorem head?_signs (hheader : ∀ name, (header name).head? ≠ some (.punct "."))
    (h : p.startsWithDot = false) : (p.signs header).head? ≠ some .dot := by
  induction p with
  | nil => nofun
  | run ts rest ih =>
      cases ts with
      | nil => exact ih h
      | cons first others =>
          rintro hhead
          cases hhead
          cases h
  | group => simp [signs]
  | window name inner rest =>
      have hname := hheader name
      rw [signs]
      cases hwords : header name with
      | nil => simp
      | cons first others => simpa [hwords] using hname

/-! ### No empty statements come in -/

theorem clean_reverseOnto_group {inner : Pattern} :
    (done.reverseOnto (group inner p)).Clean header ↔ (done.reverseOnto nil).Clean header ∧
      inner.Clean header ∧ (.closing :: p.signs header).IsChain Sign.Follows := by
  rw [Clean, signs_reverseOnto, ← List.cons_append]
  exact isChain_braces

theorem clean_reverseOnto_window {name : Term} {inner : Pattern} :
    (done.reverseOnto (window name inner p)).Clean header ↔
      List.IsChain Sign.Follows
        (.opening :: (done.reverseOnto nil).signs header ++ (header name).map .token) ∧
      inner.Clean header ∧ (.closing :: p.signs header).IsChain Sign.Follows := by
  rw [Clean, signs_reverseOnto, ← List.cons_append, signs.eq_4, ← List.append_assoc]
  exact isChain_braces

theorem Clean.terminate (h : (done.reverseOnto nil).Clean header) :
    (done.terminate.reverseOnto nil).Clean header := by
  unfold Clean at h ⊢
  rcases signs_terminate done with heq | ⟨init, t, ht, hdone, heq⟩
  · rwa [heq]
  · rw [hdone] at h
    rw [heq]
    have hdot : Sign.Follows (.token t) .dot := fun _ => ⟨by simpa using ht, nofun⟩
    exact List.isChain_cons_append_cons_cons.mpr ⟨h, hdot, List.isChain_singleton _⟩

theorem Clean.of_takeGraphHeader? (h : (done.reverseOnto nil).Clean header)
    (htake : done.takeGraphHeader? = some (graph, done')) : (done'.reverseOnto nil).Clean header := by
  obtain ⟨keyword, -, heq⟩ := signs_of_takeGraphHeader? htake
  unfold Clean at h ⊢
  rw [heq] at h
  exact (List.isChain_append.mp h).1

theorem Clean.splice (hdone : (done.reverseOnto nil).Clean header) (h : p.Clean header) :
    ((p.reverseOnto done).reverseOnto nil).Clean header := by
  unfold Clean
  rw [signs_splice]
  refine isChain_append_of_head? hdone h.tail fun hhead => ?_
  -- the group stood behind an opening brace before
  exact (List.isChain_cons.mp h).1 .dot hhead rfl |>.2 rfl

/-- Graphs without a dot behind them leave no empty statement. What is done and what is still to come
never have one together. -/
theorem clean_stripGraphsOnto (hheader : ∀ name, (header name).head? ≠ some (.punct "."))
    {headed : Bool} (hheaded : headed ∨ done.takeGraphHeader? = none)
    (hgraphs : p.EveryHeaded (fun _ rest => rest.startsWithDot = false) true inside headed)
    (h : (done.reverseOnto p).Clean header) :
    (stripGraphsOnto inside done p).1.Clean header := by
  induction p generalizing inside done headed with
  | nil => exact h
  | run ts rest ih =>
      refine ih ?_ hgraphs h
      cases hsplit : splitGraphHeader? ts <;> simp [Pattern.takeGraphHeader?, hsplit]
  | group inner rest ihinner ihrest =>
      obtain ⟨hdot, hinside, hrest⟩ := hgraphs
      obtain ⟨hdone, hinner, hbehind⟩ := clean_reverseOnto_group.mp h
      have hstripped : (stripGraphsOnto inside nil inner).1.Clean header :=
        ihinner (.inr rfl) hinside hinner
      rw [stripGraphsOnto]
      dsimp only
      split
      · next name graph done' htake =>
        -- the group is a graph: it goes, and what follows it comes to stand behind its last triple
        have hgraph : headed := hheaded.resolve_right (by simp [htake])
        have hspliced := ((Clean.of_takeGraphHeader? hdone htake).terminate.splice hstripped).terminate
        refine ihrest (.inl (by simpa using hgraph)) hrest ?_
        unfold Clean
        rw [signs_reverseOnto]
        exact isChain_append_of_head? hspliced hbehind.tail (head?_signs hheader (hdot rfl hgraph))
      · exact ihrest (.inr rfl) hrest (clean_reverseOnto_group.mpr ⟨hdone, hstripped, hbehind⟩)
  | window name inner rest ihinner ihrest =>
      obtain ⟨hinside, hrest⟩ := hgraphs
      obtain ⟨hdone, hinner, hbehind⟩ := clean_reverseOnto_window.mp h
      have hstripped : (stripGraphsOnto (some name) nil inner).1.Clean header :=
        ihinner (.inr rfl) hinside hinner
      exact ihrest (.inr rfl) hrest (clean_reverseOnto_window.mpr ⟨hdone, hstripped, hbehind⟩)

/-! ### Empty statements stay -/

theorem isChain_of_terminate
    (h : ((done.terminate.reverseOnto nil).signs header).IsChain Sign.Follows) :
    ((done.reverseOnto nil).signs header).IsChain Sign.Follows := by
  rcases signs_terminate done with heq | ⟨init, t, -, hdone, heq⟩
  · rwa [heq] at h
  · rw [heq, List.append_cons] at h
    rw [hdone]
    exact (List.isChain_append.mp h).1

theorem isChain_of_splice
    (h : (((p.reverseOnto done).reverseOnto nil).signs header).IsChain Sign.Follows) :
    ((done.reverseOnto nil).signs header).IsChain Sign.Follows ∧
      (p.signs header).IsChain Sign.Follows := by
  rw [signs_splice] at h
  obtain ⟨hdone, hp, -⟩ := List.isChain_append.mp h
  exact ⟨hdone, hp⟩

theorem isChain_of_reverseOnto (h : ((done.reverseOnto p).signs header).IsChain Sign.Follows) :
    ((done.reverseOnto nil).signs header).IsChain Sign.Follows := by
  rw [signs_reverseOnto] at h
  exact (List.isChain_append.mp h).1

/-- An empty statement among what is done does not go away with the headers that are taken, as these
begin with a word. -/
theorem isChain_of_stripGraphsOnto
    (h : ((stripGraphsOnto inside done p).1.signs header).IsChain Sign.Follows) :
    ((done.reverseOnto nil).signs header).IsChain Sign.Follows := by
  induction p generalizing inside done with
  | nil => exact h
  | run ts rest ih => exact isChain_of_reverseOnto (p := run ts nil) (ih h)
  | group inner rest _ ihrest =>
      rw [stripGraphsOnto] at h
      dsimp only at h
      split at h
      · next name graph done' htake =>
        have hbefore := isChain_of_terminate (isChain_of_splice (isChain_of_terminate (ihrest h))).1
        obtain ⟨keyword, hkeyword, heq⟩ := signs_of_takeGraphHeader? htake
        rw [heq]
        have hword : keyword ≠ .punct "." := by
          rintro rfl
          cases hkeyword
        refine isChain_append_of_head? hbefore (List.isChain_pair.mpr fun _ => ?_) ?_
        · simpa using hword
        · simpa using hword
      · exact isChain_of_reverseOnto (p := group _ nil) (ihrest h)
  | window name inner rest _ ihrest =>
      exact isChain_of_reverseOnto (p := window name _ nil) (ihrest h)

theorem getLast?_ne_dot (hdot : p.startsWithDot)
    (h : ((stripGraphsOnto inside done p).1.signs header).IsChain Sign.Follows) :
    ((done.reverseOnto nil).signs header).getLast? ≠ some .dot := by
  induction p generalizing done with
  | run ts rest ih =>
      cases ts with
      | nil =>
          have hlast := ih hdot h
          rwa [reverseOnto, signs_reverseOnto, signs, signs, List.map_nil, List.append_nil,
            List.append_nil] at hlast
      | cons first others =>
          obtain rfl : first = .punct "." := beq_iff_eq.mp hdot
          have hmore : ((done.reverseOnto (run (.punct "." :: others) nil)).signs header).IsChain
              Sign.Follows := isChain_of_stripGraphsOnto (p := rest) h
          rw [signs_reverseOnto] at hmore
          intro hlast
          exact ((List.isChain_append.mp hmore).2.2 .dot hlast .dot rfl rfl).1 rfl
  | _ => cases hdot

/-- The last run of a group is the last of what is left of it. -/
theorem exists_of_endsInRun (h : p.endsInRun) : ∃ ts done', ts ≠ [] ∧
    (stripGraphsOnto inside done p).1 = (run ts done').reverseOnto nil := by
  fun_induction endsInRun p generalizing done with
  | case1 => cases h
  | case2 ts => exact ⟨ts, done, by simpa using h, rfl⟩
  | case3 ts rest _ ih => exact ih h
  | case4 inner rest ih =>
      rw [stripGraphsOnto]
      dsimp only
      split
      · exact ih h
      · exact ih h
  | case5 name inner rest ih => exact ih h

theorem getLast?_terminate_run {ts : List Token} (hts : ts ≠ []) :
    (((run ts done).terminate.reverseOnto nil).signs header).getLast? = some .dot := by
  obtain ⟨init, last, rfl⟩ := (List.eq_nil_or_concat' ts).resolve_left hts
  rw [terminate, List.getLast?_concat]
  dsimp only
  split
  · next hdot =>
    obtain rfl := Token.eq_punct_of_isPunct hdot
    simp [reverseOnto, signs_reverseOnto done (run _ _), signs]
  · simp [reverseOnto, signs_reverseOnto done (run _ _), signs]

/-- A dot behind a graph that ends in triples leaves an empty statement. -/
theorem everyHeaded_of_isChain {headed : Bool}
    (hheaded : headed = false ∨ done.takeGraphHeader?.isSome)
    (h : ((stripGraphsOnto inside done p).1.signs header).IsChain Sign.Follows) :
    p.EveryHeaded (fun inner rest => rest.startsWithDot → ¬ inner.endsInRun) false inside headed := by
  induction p generalizing inside done headed with
  | nil => trivial
  | run ts rest ih =>
      refine ih ?_ h
      cases hsplit : splitGraphHeader? ts <;> simp [Pattern.takeGraphHeader?, hsplit]
  | group inner rest ihinner ihrest =>
      rw [stripGraphsOnto] at h
      dsimp only at h
      split at h
      · next name graph done' htake =>
        have hall := isChain_of_stripGraphsOnto h
        obtain ⟨-, hstripped⟩ := isChain_of_splice (isChain_of_terminate hall)
        refine ⟨fun _ _ hdot hends => ?_, ihinner (.inl rfl) hstripped,
          ihrest (.inl (Bool.and_false headed)) h⟩
        obtain ⟨ts, before, hts, heq⟩ := exists_of_endsInRun hends
        refine getLast?_ne_dot hdot h ?_
        rw [heq, reverseOnto_reverseOnto]
        exact getLast?_terminate_run hts
      · next hkept =>
        have hall := isChain_of_stripGraphsOnto h
        rw [reverseOnto, signs_reverseOnto, signs, isChain_braces] at hall
        refine ⟨fun hinside hhead => ?_, ihinner (.inl rfl) hall.2.1.tail,
          ihrest (.inl (Bool.and_false headed)) h⟩
        obtain ⟨name, rfl⟩ := Option.isSome_iff_exists.mp hinside
        obtain ⟨⟨graph, done'⟩, htake⟩ :=
          Option.isSome_iff_exists.mp (hheaded.resolve_left (by simp [hhead]))
        exact (hkept name graph done' rfl htake).elim
  | window name inner rest ihinner ihrest =>
      have hall := isChain_of_stripGraphsOnto (p := rest) h
      rw [reverseOnto, signs_reverseOnto, signs.eq_4, ← List.append_assoc, isChain_braces] at hall
      exact ⟨ihinner (.inl rfl) hall.2.1.tail, ihrest (.inl rfl) h⟩

/-! ### The removal as a whole -/

/-- No two dots stand next to each other among the written tokens of a group without an empty
statement. -/
theorem Clean.isChain_headedTokens (h : p.Clean header) :
    (p.headedTokens header).IsChain fun before next =>
      next = .punct "." → before ≠ .punct "." := by
  rw [headedTokens_eq_map, List.isChain_map]
  refine h.tail.imp fun before next hfollows hnext => ?_
  have hdot : ∀ sign : Sign, sign.written = .punct "." ↔ sign = .dot := by
    intro sign
    cases sign <;> simp [Sign.written]
  rw [Ne, hdot]
  exact (hfollows ((hdot next).mp hnext)).1

/-- If no dot stands directly behind a graph inside a window, then the removal of graphs leaves no empty
statement in a pattern that had none, and no two dots next to each other in its text. If it leaves none,
then at least no dot stands behind a graph that ends in triples. -/
theorem clean_withoutWindowGraphs (hheader : ∀ name, (header name).head? ≠ some (.punct ".")) :
    (p.Clean header →
      p.EveryHeaded (fun _ rest => rest.startsWithDot = false) true none false →
      p.withoutWindowGraphs.1.Clean header ∧
        (p.withoutWindowGraphs.1.headedTokens header).IsChain fun before next =>
          next = .punct "." → before ≠ .punct ".") ∧
    (p.withoutWindowGraphs.1.Clean header →
      p.EveryHeaded (fun inner rest => rest.startsWithDot → ¬ inner.endsInRun) false none false) := by
  refine ⟨fun hclean hgraphs => ?_, fun hclean => ?_⟩
  · have hresult : p.withoutWindowGraphs.1.Clean header :=
      clean_stripGraphsOnto hheader (.inr rfl) hgraphs hclean
    exact ⟨hresult, hresult.isChain_headedTokens⟩
  · exact everyHeaded_of_isChain (.inl rfl) hclean.tail

/-- Without tokens in front of window blocks, as a text of another dialect has them. -/
theorem clean_withoutWindowGraphs_withGraph :
    withGraph.Clean (fun _ => []) ∧ withGraph.withoutWindowGraphs.1.Clean (fun _ => []) ∧
      (withGraph.withoutWindowGraphs.1.headedTokens fun _ => []).IsChain (fun before next =>
        next = .punct "." → before ≠ .punct ".") ∧
      withGraph.EveryHeaded (fun inner rest => rest.startsWithDot → ¬ inner.endsInRun) false none
        false := by
  have hclean : withGraph.Clean fun _ => [] := by
    unfold Clean
    decide
  obtain ⟨hkept, hconverse⟩ := @clean_withoutWindowGraphs (fun _ => []) withGraph fun _ => nofun
  obtain ⟨hresult, htokens⟩ := hkept hclean ⟨⟨fun _ _ => rfl, trivial, trivial⟩, trivial⟩
  exact ⟨hclean, hresult, htokens, hconverse hresult⟩

/-- A graph with triples, a dot behind its block and a triple behind the dot. -/
def withDottedGraph : Pattern :=
  window readings
    (run [.word "GRAPH", .variable "g"]
      (group (run [.variable "s", .variable "p", .variable "o"] nil)
        (run [.punct ".", .variable "x", .variable "y", .variable "z"] nil))) nil

/-- The dot behind the block of a graph stays, although one is put in for the block. -/
theorem withoutWindowGraphs_keeps_dot :
    withDottedGraph.Clean (fun _ => []) ∧
      ¬ withDottedGraph.withoutWindowGraphs.1.Clean (fun _ => []) := by
  unfold Clean
  decide

end Pattern

end StreamQuery
