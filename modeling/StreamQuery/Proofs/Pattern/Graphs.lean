import StreamQuery.Pattern.Graphs
import StreamQuery.Proofs.SortedMap

/-! # What the removal of graphs takes out of windows

With its braces left out a pattern is a row of entries: tokens, and the names of window blocks in front
of what stands in them. The removal of graphs deletes their headers from the row and puts dots into it.
Since headers are looked for in members that are done, a dot that was put there counts as what follows
a keyword `GRAPH` that nothing follows.
-/

namespace StreamQuery

/-- What stands in a pattern apart from its braces: a token, or the name in front of a window block. -/
inductive Entry where
  | token (token : Token)
  | window (name : Term)
  deriving DecidableEq

/-- The name of the variable that an entry is. -/
def Entry.variableName? : Entry → Option String
  | .token t => t.variableName?
  | .window name => name.variableName?

/-- The dot that ends a triple. -/
abbrev Entry.dot : Entry := .token (.punct ".")

/-- Entries in order, each with the innermost window around it. -/
abbrev Row := List (Option Term × Entry)

namespace Pattern

/-- The entries of a group. -/
def entries (inside : Option Term) : Pattern → Row
  | nil => []
  | run tokens rest => tokens.map (fun token => (inside, .token token)) ++ rest.entries inside
  | group inner rest => inner.entries inside ++ rest.entries inside
  | window name inner rest =>
    (inside, .window name) :: (inner.entries (some name) ++ rest.entries inside)

/-- A pattern with nothing inside its windows. -/
def outsideWindows : Pattern → Pattern
  | nil => nil
  | run tokens rest => run tokens rest.outsideWindows
  | group inner rest => group inner.outsideWindows rest.outsideWindows
  | window name _ rest => window name nil rest.outsideWindows

end Pattern

/-! ### Rows of entries -/

/-- Dots are put between the entries of windows. -/
inductive WithDots : Row → Row → Prop where
  | nil : WithDots [] []
  | keep {entries result : Row} (entry : Option Term × Entry) (rest : WithDots entries result) :
    WithDots (entry :: entries) (entry :: result)
  | dot {entries result : Row} (name : Term) (rest : WithDots entries result) :
    WithDots entries ((some name, .dot) :: result)

/-- Headers of graphs are deleted from the entries of windows. Each is a keyword and the token behind
it, which is listed with the window. -/
inductive WithoutHeaders : Row → Row → List (Term × Token) → Prop where
  | nil : WithoutHeaders [] [] []
  | keep {entries result : Row} {taken : List (Term × Token)} (entry : Option Term × Entry)
    (rest : WithoutHeaders entries result taken) :
    WithoutHeaders (entry :: entries) (entry :: result) taken
  | header {entries result : Row} {taken : List (Term × Token)} (name : Term) {keyword : Token}
    (isGraph : keyword.isWord "GRAPH") (graph : Token)
    (rest : WithoutHeaders entries result taken) :
    WithoutHeaders ((some name, .token keyword) :: (some name, .token graph) :: entries) result
      ((name, graph) :: taken)

/-- Dots are put and headers deleted in one go. If `loose`, then a keyword is also deleted with a dot
that was put behind it. -/
inductive Strips (loose : Prop) : Row → Row → List (Term × Token) → Prop where
  | nil : Strips loose [] [] []
  | keep {entries result : Row} {taken : List (Term × Token)} (entry : Option Term × Entry)
    (rest : Strips loose entries result taken) :
    Strips loose (entry :: entries) (entry :: result) taken
  | dot {entries result : Row} {taken : List (Term × Token)} (name : Term)
    (rest : Strips loose entries result taken) :
    Strips loose entries ((some name, .dot) :: result) taken
  | header {entries result : Row} {taken : List (Term × Token)} (name : Term) {keyword : Token}
    (isGraph : keyword.isWord "GRAPH") (graph : Token)
    (rest : Strips loose entries result taken) :
    Strips loose ((some name, .token keyword) :: (some name, .token graph) :: entries) result
      ((name, graph) :: taken)
  | lone {entries result : Row} {taken : List (Term × Token)} (isLoose : loose) (name : Term)
    {keyword : Token} (isGraph : keyword.isWord "GRAPH")
    (rest : Strips loose entries result taken) :
    Strips loose ((some name, .token keyword) :: entries) result ((name, .punct ".") :: taken)

section Rows

variable {loose : Prop} {es es' fs fs' : Row} {taken taken' : List (Term × Token)}

/-- What is listed as the name of a graph stood in its window. -/
theorem WithoutHeaders.mem_entries (h : WithoutHeaders es fs taken) :
    ∀ pair ∈ taken, (some pair.1, .token pair.2) ∈ es := by
  induction h with
  | nil => nofun
  | keep entry _ ih => exact fun pair hpair => List.mem_cons_of_mem _ (ih pair hpair)
  | header name _ graph _ ih =>
      refine List.forall_mem_cons.mpr ⟨by simp, fun pair hpair => ?_⟩
      exact List.mem_cons_of_mem _ (List.mem_cons_of_mem _ (ih pair hpair))

namespace Strips

theorem refl (es : Row) : Strips loose es es [] := by
  induction es with
  | nil => exact .nil
  | cons entry es ih => exact .keep entry ih

theorem append (h : Strips loose es fs taken) (h' : Strips loose es' fs' taken') :
    Strips loose (es ++ es') (fs ++ fs') (taken ++ taken') := by
  induction h with
  | nil => exact h'
  | keep entry _ ih => exact .keep entry ih
  | dot name _ ih => exact .dot name ih
  | header name isGraph graph _ ih => exact .header name isGraph graph ih
  | lone isLoose name isGraph _ ih => exact .lone isLoose name isGraph ih

/-- All dots can be put before any header is deleted. -/
theorem withDots (h : Strips loose es fs taken) :
    ∃ dotted, WithDots es dotted ∧ WithoutHeaders dotted fs taken := by
  induction h with
  | nil => exact ⟨_, .nil, .nil⟩
  | keep entry _ ih =>
      obtain ⟨dotted, hdots, hheaders⟩ := ih
      exact ⟨_, .keep entry hdots, .keep entry hheaders⟩
  | dot name _ ih =>
      obtain ⟨dotted, hdots, hheaders⟩ := ih
      exact ⟨_, .dot name hdots, .keep _ hheaders⟩
  | header name isGraph graph _ ih =>
      obtain ⟨dotted, hdots, hheaders⟩ := ih
      exact ⟨_, .keep _ (.keep _ hdots), .header name isGraph graph hheaders⟩
  | lone _ name isGraph _ ih =>
      obtain ⟨dotted, hdots, hheaders⟩ := ih
      exact ⟨_, .keep _ (.dot name hdots), .header name isGraph _ hheaders⟩

/-- Where no keyword takes a dot that was put behind it, the headers can be deleted first. -/
theorem withoutHeaders (h : Strips False es fs taken) :
    ∃ kept, WithoutHeaders es kept taken ∧ WithDots kept fs := by
  induction h with
  | nil => exact ⟨_, .nil, .nil⟩
  | keep entry _ ih =>
      obtain ⟨kept, hheaders, hdots⟩ := ih
      exact ⟨_, .keep entry hheaders, .keep entry hdots⟩
  | dot name _ ih =>
      obtain ⟨kept, hheaders, hdots⟩ := ih
      exact ⟨kept, hheaders, .dot name hdots⟩
  | header name isGraph graph _ ih =>
      obtain ⟨kept, hheaders, hdots⟩ := ih
      exact ⟨kept, .header name isGraph graph hheaders, hdots⟩
  | lone isLoose => exact isLoose.elim

/-- Only the names of graphs are missing among the variables. -/
theorem variables_perm (h : Strips loose es fs taken) :
    (es.filterMap (·.2.variableName?)).Perm
      (fs.filterMap (·.2.variableName?) ++ taken.filterMap (·.2.variableName?)) := by
  have hkeyword : ∀ {keyword : Token}, keyword.isWord "GRAPH" →
      (Entry.token keyword).variableName? = none := by
    intro keyword hkeyword
    cases keyword <;> first | rfl | cases hkeyword
  have hdot : (Token.punct ".").variableName? = none := rfl
  induction h with
  | nil => exact .nil
  | keep entry _ ih => cases hname : entry.2.variableName? <;> simp [hname, ih]
  | dot name _ ih =>
      have hentry : Entry.dot.variableName? = none := rfl
      simpa [hentry] using ih
  | @header _ _ _ name _ isGraph graph _ ih =>
      have hentry : (Entry.token graph).variableName? = graph.variableName? := rfl
      cases hname : graph.variableName? with
      | none => simpa [hentry, hkeyword isGraph, hname] using ih
      | some variableName =>
          simpa [hentry, hkeyword isGraph, hname] using
            (ih.cons variableName).trans List.perm_middle.symm
  | lone _ name isGraph _ ih => simpa [hkeyword isGraph, hdot] using ih

end Strips

end Rows

/-! ### Keywords of graphs -/

/-- Every keyword `GRAPH` among tokens meets a condition on the tokens behind it. -/
def Token.EveryGraph (holds : List Token → Prop) (tokens : List Token) : Prop :=
  ∀ keyword after, keyword :: after <:+ tokens → keyword.isWord "GRAPH" → holds after

theorem Token.everyGraph_cons {holds : List Token → Prop} {t : Token} {ts : List Token} :
    Token.EveryGraph holds (t :: ts) ↔
      (t.isWord "GRAPH" → holds ts) ∧ Token.EveryGraph holds ts := by
  simp only [Token.EveryGraph, List.suffix_cons_iff, List.cons.injEq, or_imp, forall_and]
  refine and_congr_left fun _ => ⟨fun h => h t ts ⟨rfl, rfl⟩, ?_⟩
  rintro h _ _ ⟨rfl, rfl⟩
  exact h

theorem Token.everyGraph_nil (holds : List Token → Prop) : Token.EveryGraph holds [] :=
  fun _ _ hsuffix => absurd (List.suffix_nil.mp hsuffix) (List.cons_ne_nil _ _)

/-- The token behind a keyword `GRAPH` is there and is no such keyword itself. -/
def Token.NamesGraph (after : List Token) : Prop :=
  ∃ graph, after.head? = some graph ∧ ¬ graph.isWord "GRAPH"

namespace Pattern

/-- Every keyword `GRAPH` inside a window meets a condition on the tokens behind it in its run and on
the members behind the run. -/
def EveryGraph (holds : List Token → Pattern → Prop) (inside : Option Term) : Pattern → Prop
  | nil => True
  | run tokens rest =>
    (inside.isSome → Token.EveryGraph (holds · rest) tokens) ∧ rest.EveryGraph holds inside
  | group inner rest => inner.EveryGraph holds inside ∧ rest.EveryGraph holds inside
  | window name inner rest => inner.EveryGraph holds (some name) ∧ rest.EveryGraph holds inside

/-- One token stands between a keyword `GRAPH` and a group. -/
def HeadsGroup (after : List Token) (rest : Pattern) : Prop :=
  after.length = 1 ∧ ∃ inner others, rest = group inner others

/-! ### What is done -/

/-- Members that are done, in reverse order, with the entries that they come from. The runs among them
are those of the source up to a header that was taken and a dot that was put. -/
inductive Stacked (loose : Prop) (inside : Option Term) : Row → Pattern → List (Term × Token) → Prop where
  | nil : Stacked loose inside [] nil []
  | run {entries : Row} {done : Pattern} {taken : List (Term × Token)} {tokens : List Token}
    (named : inside.isSome → Token.EveryGraph (fun after => loose ∨ Token.NamesGraph after) tokens)
    (before : Stacked loose inside entries done taken) :
    Stacked loose inside (entries ++ tokens.map fun token => (inside, .token token))
      (run tokens done) taken
  | dotted {entries : Row} {done : Pattern} {taken : List (Term × Token)} {tokens : List Token}
    (isInside : inside.isSome)
    (named : Token.EveryGraph (fun after => loose ∨ Token.NamesGraph after) tokens)
    (before : Stacked loose inside entries done taken) :
    Stacked loose inside (entries ++ tokens.map fun token => (inside, .token token))
      (run (tokens ++ [.punct "."]) done) taken
  | group {entries entries' : Row} {inner done : Pattern} {taken taken' : List (Term × Token)}
    (stripped : Strips loose entries' (inner.entries inside) taken')
    (before : Stacked loose inside entries done taken) :
    Stacked loose inside (entries ++ entries') (group inner done) (taken ++ taken')
  | window {entries entries' : Row} {name : Term} {inner done : Pattern}
    {taken taken' : List (Term × Token)}
    (stripped : Strips loose entries' (inner.entries (some name)) taken')
    (before : Stacked loose inside entries done taken) :
    Stacked loose inside (entries ++ (inside, .window name) :: entries') (window name inner done)
      (taken ++ taken')
  | lost {entries entries' : Row} {done : Pattern} {taken taken' : List (Term × Token)}
    (stripped : Strips loose entries' [] taken') (before : Stacked loose inside entries done taken) :
    Stacked loose inside (entries ++ entries') done (taken ++ taken')

theorem reverseOnto_reverseOnto (p q r : Pattern) :
    (p.reverseOnto q).reverseOnto r = q.reverseOnto (p.append r) := by
  induction p generalizing q with
  | nil => rfl
  | run tokens rest ih => exact ih _
  | group inner rest _ ih => exact ih _
  | window name inner rest _ ih => exact ih _

theorem entries_reverseOnto (inside : Option Term) (p q : Pattern) :
    (p.reverseOnto q).entries inside = (p.reverseOnto nil).entries inside ++ q.entries inside := by
  induction p generalizing q with
  | nil => rfl
  | run tokens rest ih => simp [reverseOnto, ih (run _ _), entries]
  | group inner rest _ ih => simp [reverseOnto, ih (group _ _), entries]
  | window name inner rest _ ih => simp [reverseOnto, ih (window _ _ _), entries]

section Done

variable {loose : Prop} {inside : Option Term} {name : Term} {es es' : Row} {p done done' : Pattern}
  {taken taken' : List (Term × Token)} {ts init : List Token}
  {keyword graph : Token}

theorem eq_of_splitGraphHeader? (h : splitGraphHeader? ts = some (init, graph)) :
    ∃ keyword, ts = init ++ [keyword, graph] ∧ keyword.isWord "GRAPH" := by
  unfold splitGraphHeader? at h
  split at h
  · next keyword reversed hreverse =>
    split at h
    · next hkeyword =>
      cases h
      refine ⟨keyword, ?_, hkeyword⟩
      rw [← List.reverse_reverse ts, hreverse]
      simp
    · cases h
  · cases h

/-- The graphs are named in front of the last header too, since its keyword is none of their names. -/
theorem everyGraph_of_header (hkeyword : keyword.isWord "GRAPH")
    (h : Token.EveryGraph (fun after => loose ∨ Token.NamesGraph after)
      (init ++ [keyword, graph])) :
    Token.EveryGraph (fun after => loose ∨ Token.NamesGraph after) init := by
  intro keyword' after hsuffix hkeyword'
  obtain ⟨start, rfl⟩ := hsuffix
  have hlonger := h keyword' (after ++ [keyword, graph]) ⟨start, by simp⟩ hkeyword'
  refine hlonger.imp_right ?_
  rintro ⟨graph', hgraph', hname⟩
  cases after with
  | nil =>
      cases hgraph'
      exact absurd hkeyword hname
  | cons next others => exact ⟨graph', hgraph', hname⟩

namespace Stacked

/-- A run whose tokens are taken away as a whole is no member. -/
theorem run_or (named : inside.isSome →
      Token.EveryGraph (fun after => loose ∨ Token.NamesGraph after) init)
    (h : Stacked loose inside es done taken) :
    Stacked loose inside (es ++ init.map fun token => (inside, .token token))
      (if init.isEmpty then done else Pattern.run init done) taken := by
  cases init with
  | nil => simpa using h
  | cons token others => exact .run named h

/-- A header that is taken belongs to the entries, but for a dot that was put as its last token. -/
theorem takeGraphHeader? (h : Stacked loose (some name) es done taken)
    (htake : done.takeGraphHeader? = some (graph, done')) :
    ∃ taken', Stacked loose (some name) es done' taken' ∧ taken'.Perm ((name, graph) :: taken) := by
  induction h with
  | nil => cases htake
  | group => cases htake
  | window => cases htake
  | run named hbefore _ =>
      obtain ⟨⟨init, graph'⟩, hsplit, heq⟩ := Option.map_eq_some_iff.mp htake
      cases heq
      obtain ⟨keyword, rfl, hkeyword⟩ := eq_of_splitGraphHeader? hsplit
      have hinit := hbefore.run_or fun hinside => everyGraph_of_header hkeyword (named hinside)
      have hlost := Stacked.lost (.header name hkeyword graph .nil) hinit
      exact ⟨_, by simpa using hlost, List.perm_append_comm⟩
  | dotted _ named hbefore _ =>
      obtain ⟨⟨init, graph'⟩, hsplit, heq⟩ := Option.map_eq_some_iff.mp htake
      cases heq
      obtain ⟨keyword, hconcat, hkeyword⟩ := eq_of_splitGraphHeader? hsplit
      obtain ⟨rfl, hlast⟩ := List.append_inj' (hconcat.trans (List.append_cons init keyword [graph])) rfl
      cases hlast
      -- nothing but the dot follows the keyword
      have hloose : loose := (named keyword [] ⟨init, rfl⟩ hkeyword).resolve_right nofun
      have hnamed : Token.EveryGraph (fun after => loose ∨ Token.NamesGraph after) init :=
        fun _ _ _ _ => .inl hloose
      have hinit := hbefore.run_or fun _ => hnamed
      have hlost := Stacked.lost (.lone hloose name hkeyword .nil) hinit
      exact ⟨_, by simpa using hlost, List.perm_append_comm⟩
  | lost stripped _ ih =>
      obtain ⟨taken', hbefore, hperm⟩ := ih htake
      exact ⟨_, .lost stripped hbefore, hperm.append_right _⟩

/-- A dot behind the member written last. -/
theorem terminate (h : Stacked loose (some name) es done taken) :
    Stacked loose (some name) es done.terminate taken := by
  induction h with
  | nil => exact .nil
  | group stripped hbefore _ => exact .group stripped hbefore
  | window stripped hbefore _ => exact .window stripped hbefore
  | run named hbefore _ =>
      rw [Pattern.terminate]
      split
      · split
        · exact .run named hbefore
        · exact .dotted rfl (named rfl) hbefore
      · exact .run named hbefore
  | dotted isInside named hbefore _ =>
      simpa [Pattern.terminate, Token.isPunct] using Stacked.dotted isInside named hbefore
  | lost stripped _ ih => exact .lost stripped ih

/-- What is done inside a graph is put on top of what is done before it. -/
theorem append (h : Stacked loose inside es done taken)
    (h' : Stacked loose inside es' done' taken') :
    Stacked loose inside (es ++ es') (done'.append done) (taken ++ taken') := by
  induction h' with
  | nil => simpa [Pattern.append] using h
  | run named _ ih => simpa [Pattern.append] using ih.run named
  | dotted isInside named _ ih => simpa [Pattern.append] using ih.dotted isInside named
  | group stripped _ ih => simpa [Pattern.append] using ih.group stripped
  | window stripped _ ih => simpa [Pattern.append] using ih.window stripped
  | lost stripped _ ih => simpa using ih.lost stripped

/-- Members that are done, put in order again. -/
theorem strips (h : Stacked loose inside es done taken) :
    Strips loose es ((done.reverseOnto .nil).entries inside) taken := by
  induction h with
  | nil => exact .nil
  | run _ _ ih =>
      rw [reverseOnto, entries_reverseOnto]
      simpa [entries] using ih.append (.refl _)
  | dotted isInside _ _ ih =>
      obtain ⟨name, rfl⟩ := Option.isSome_iff_exists.mp isInside
      rw [reverseOnto, entries_reverseOnto]
      simpa [entries] using ih.append ((Strips.refl _).append (.dot name .nil))
  | group stripped _ ih =>
      rw [reverseOnto, entries_reverseOnto]
      simpa [entries] using ih.append stripped
  | window stripped _ ih =>
      rw [reverseOnto, entries_reverseOnto]
      simpa [entries] using ih.append (.keep _ stripped)
  | lost stripped _ ih => simpa using ih.append stripped

end Stacked

/-- The entries of a pattern are stacked on those that are done. -/
theorem stacked_stripGraphsOnto
    (h : p.EveryGraph (fun after _ => loose ∨ Token.NamesGraph after) inside)
    (hdone : Stacked loose inside es done taken) :
    ∃ done' taken', (stripGraphsOnto inside done p).1 = done'.reverseOnto nil ∧
      Stacked loose inside (es ++ p.entries inside) done' taken' ∧
      taken'.Perm (taken ++ (stripGraphsOnto inside done p).2) := by
  induction p generalizing inside es done taken with
  | nil => exact ⟨done, taken, rfl, by simpa [entries] using hdone, by simp [stripGraphsOnto]⟩
  | run ts rest ih =>
      obtain ⟨hrun, hrest⟩ := h
      simpa [entries, stripGraphsOnto] using ih hrest (hdone.run hrun)
  | group inner rest ihinner ihrest =>
      obtain ⟨hinner, hrest⟩ := h
      obtain ⟨done₁, taken₁, hall₁, hstacked₁, hperm₁⟩ := ihinner hinner .nil
      rw [stripGraphsOnto]
      dsimp only
      split
      · next name graph done' htake =>
        obtain ⟨taken₂, hheader, hperm₂⟩ := hdone.takeGraphHeader? htake
        rw [hall₁, reverseOnto_reverseOnto]
        obtain ⟨done₃, taken₃, hall₃, hstacked₃, hperm₃⟩ :=
          ihrest hrest (hheader.terminate.append hstacked₁).terminate
        refine ⟨done₃, taken₃, hall₃, by simpa [entries] using hstacked₃, hperm₃.trans ?_⟩
        rw [← List.append_assoc]
        exact ((hperm₂.append hperm₁).append_right _).trans List.perm_middle.symm
      · have hstripped := hstacked₁.strips
        rw [← hall₁] at hstripped
        obtain ⟨done₃, taken₃, hall₃, hstacked₃, hperm₃⟩ := ihrest hrest (hdone.group hstripped)
        refine ⟨done₃, taken₃, hall₃, by simpa [entries] using hstacked₃, hperm₃.trans ?_⟩
        rw [← List.append_assoc]
        exact (hperm₁.append_left _).append_right _
  | window name inner rest ihinner ihrest =>
      obtain ⟨hinner, hrest⟩ := h
      obtain ⟨done₁, taken₁, hall₁, hstacked₁, hperm₁⟩ := ihinner hinner .nil
      have hstripped := hstacked₁.strips
      rw [← hall₁] at hstripped
      obtain ⟨done₃, taken₃, hall₃, hstacked₃, hperm₃⟩ := ihrest hrest (hdone.window hstripped)
      refine ⟨done₃, taken₃, hall₃, by simpa [entries] using hstacked₃, hperm₃.trans ?_⟩
      rw [stripGraphsOnto, ← List.append_assoc]
      exact (hperm₁.append_left _).append_right _

/-- The removal of graphs as one go over the entries. -/
theorem exists_strips (h : p.EveryGraph (fun after _ => loose ∨ Token.NamesGraph after) none) :
    ∃ taken, taken.Perm p.withoutWindowGraphs.2 ∧
      Strips loose (p.entries none) (p.withoutWindowGraphs.1.entries none) taken := by
  obtain ⟨done, taken, hall, hstacked, hperm⟩ := stacked_stripGraphsOnto h .nil
  refine ⟨taken, hperm, ?_⟩
  rw [withoutWindowGraphs, hall]
  exact hstacked.strips

theorem everyGraph_of_forall {holds : List Token → Pattern → Prop}
    (h : ∀ after rest, holds after rest) (inside : Option Term) (p : Pattern) :
    p.EveryGraph holds inside := by
  induction p generalizing inside with
  | nil => trivial
  | run ts rest ih => exact ⟨fun _ _ after _ _ => h after rest, ih inside⟩
  | group inner rest ihinner ihrest => exact ⟨ihinner inside, ihrest inside⟩
  | window name inner rest ihinner ihrest => exact ⟨ihinner (some name), ihrest inside⟩

theorem EveryGraph.imp {holds holds' : List Token → Pattern → Prop}
    (himp : ∀ after rest, holds after rest → holds' after rest) (h : p.EveryGraph holds inside) :
    p.EveryGraph holds' inside := by
  induction p generalizing inside with
  | nil => trivial
  | run ts rest ih =>
      obtain ⟨hrun, hrest⟩ := h
      refine ⟨fun hinside keyword after hsuffix hkeyword => ?_, ih hrest⟩
      exact himp after rest (hrun hinside keyword after hsuffix hkeyword)
  | group inner rest ihinner ihrest => exact ⟨ihinner h.1, ihrest h.2⟩
  | window name inner rest ihinner ihrest => exact ⟨ihinner h.1, ihrest h.2⟩

/-- A keyword in front of the name of a graph is not itself that name, as it would end its run. -/
theorem EveryGraph.namesGraph (h : p.EveryGraph HeadsGroup inside) :
    p.EveryGraph (fun after _ => Token.NamesGraph after) inside := by
  induction p generalizing inside with
  | nil => trivial
  | run ts rest ih =>
      obtain ⟨hrun, hrest⟩ := h
      refine ⟨fun hinside keyword after hsuffix hkeyword => ?_, ih hrest⟩
      obtain ⟨graph, rfl⟩ := List.length_eq_one_iff.mp (hrun hinside keyword after hsuffix hkeyword).1
      refine ⟨graph, rfl, fun hgraph => ?_⟩
      have hlast := (hrun hinside graph [] ((List.suffix_cons _ _).trans hsuffix) hgraph).1
      cases hlast
  | group inner rest ihinner ihrest => exact ⟨ihinner h.1, ihrest h.2⟩
  | window name inner rest ihinner ihrest => exact ⟨ihinner h.1, ihrest h.2⟩

/-! ### Variables -/

theorem variableOccurrences_eq (inside : Option Term) (p : Pattern) :
    p.variableOccurrences = (p.entries inside).filterMap (·.2.variableName?) := by
  induction p generalizing inside with
  | nil => rfl
  | run ts rest ih =>
      rw [variableOccurrences, entries, ih inside, List.filterMap_append, List.filterMap_map]
      rfl
  | group inner rest ihinner ihrest =>
      rw [variableOccurrences, entries, ihinner inside, ihrest inside, List.filterMap_append]
  | window name inner rest ihinner ihrest =>
      rw [variableOccurrences, entries, ihinner (some name), ihrest inside, List.filterMap_cons]
      cases hname : name.variableName? <;> simp [Entry.variableName?, hname]

/-! ### Outside windows -/

theorem outsideWindows_reverseOnto (p q : Pattern) :
    (p.reverseOnto q).outsideWindows = p.outsideWindows.reverseOnto q.outsideWindows := by
  induction p generalizing q with
  | nil => rfl
  | run ts rest ih => exact ih _
  | group inner rest _ ih => exact ih _
  | window name inner rest _ ih => exact ih _

theorem outsideWindows_stripGraphsOnto (done p : Pattern) :
    (stripGraphsOnto none done p).1.outsideWindows = (done.reverseOnto p).outsideWindows := by
  induction p generalizing done with
  | nil => rfl
  | run ts rest ih => exact ih _
  | group inner rest ihinner ihrest =>
      refine (ihrest _).trans ?_
      rw [reverseOnto, outsideWindows_reverseOnto, outsideWindows_reverseOnto, outsideWindows,
        outsideWindows, ihinner nil]
      rfl
  | window name inner rest _ ihrest =>
      refine (ihrest _).trans ?_
      rw [reverseOnto, outsideWindows_reverseOnto, outsideWindows_reverseOnto]
      rfl

/-! ### Headed groups -/

/-- A pattern without keywords `GRAPH` in its windows. -/
def Ungraphed (inside : Option Term) (p : Pattern) : Prop := p.EveryGraph (fun _ _ => False) inside

theorem ungraphed_nil : nil.Ungraphed inside := trivial

theorem ungraphed_run : (run ts p).Ungraphed inside ↔
    (inside.isSome → ∀ t ∈ ts, ¬ t.isWord "GRAPH") ∧ p.Ungraphed inside := by
  refine and_congr_left fun _ => imp_congr_right fun _ => ⟨fun h t ht hgraph => ?_, ?_⟩
  · obtain ⟨init, after, rfl⟩ := List.append_of_mem ht
    exact h t after (List.suffix_append _ _) hgraph
  · exact fun h keyword after hsuffix => h keyword (hsuffix.subset List.mem_cons_self)

theorem ungraphed_group {inner : Pattern} :
    (group inner p).Ungraphed inside ↔ inner.Ungraphed inside ∧ p.Ungraphed inside := Iff.rfl

theorem ungraphed_window {inner : Pattern} : (window name inner p).Ungraphed inside ↔
    inner.Ungraphed (some name) ∧ p.Ungraphed inside := Iff.rfl

theorem Ungraphed.reverseOnto {q : Pattern} (h : p.Ungraphed inside) (hq : q.Ungraphed inside) :
    (p.reverseOnto q).Ungraphed inside := by
  induction p generalizing q with
  | nil => exact hq
  | run ts rest ih => exact ih h.2 ⟨h.1, hq⟩
  | group inner rest _ ih => exact ih h.2 ⟨h.1, hq⟩
  | window name inner rest _ ih => exact ih h.2 ⟨h.1, hq⟩

theorem Ungraphed.terminate (h : p.Ungraphed inside) : p.terminate.Ungraphed inside := by
  cases p with
  | run ts rest =>
      rw [Pattern.terminate]
      split
      · split
        · exact h
        · obtain ⟨hrun, hrest⟩ := ungraphed_run.mp h
          refine ungraphed_run.mpr ⟨fun hinside => List.forall_mem_append.mpr ⟨hrun hinside, ?_⟩, hrest⟩
          exact List.forall_mem_singleton.mpr nofun
      · exact h
  | _ => exact h

theorem Ungraphed.takeGraphHeader? (h : p.Ungraphed (some name)) : p.takeGraphHeader? = none := by
  cases p with
  | run ts rest =>
      refine Option.map_eq_none_iff.mpr (Option.eq_none_iff_forall_ne_some.mpr fun header hsplit => ?_)
      obtain ⟨keyword, rfl, hkeyword⟩ := eq_of_splitGraphHeader? hsplit
      exact (ungraphed_run.mp h).1 rfl keyword (by simp) hkeyword
  | _ => rfl

/-- Without keywords in windows nothing is removed. -/
theorem stripGraphsOnto_of_ungraphed (hdone : done.Ungraphed inside) (h : p.Ungraphed inside) :
    stripGraphsOnto inside done p = (done.reverseOnto p, []) := by
  induction p generalizing inside done with
  | nil => rfl
  | run ts rest ih => exact ih ⟨h.1, hdone⟩ h.2
  | group inner rest ihinner ihrest =>
      obtain ⟨hinner, hrest⟩ := h
      have hstripped : stripGraphsOnto inside nil inner = (inner, []) := ihinner ungraphed_nil hinner
      rw [stripGraphsOnto, hstripped]
      dsimp only
      split
      · next htake => cases hdone.takeGraphHeader?.symm.trans htake
      · rw [ihrest (ungraphed_group.mpr ⟨hinner, hdone⟩) hrest]
        rfl
  | window name inner rest ihinner ihrest =>
      obtain ⟨hinner, hrest⟩ := h
      have hstripped : stripGraphsOnto (some name) nil inner = (inner, []) :=
        ihinner ungraphed_nil hinner
      rw [stripGraphsOnto, hstripped]
      dsimp only
      rw [ihrest (ungraphed_window.mpr ⟨hinner, hdone⟩) hrest]
      rfl

/-- What may stand behind members that are done if all headers head groups: anything behind members
without keywords, and a group behind its header. -/
def Ready (inside : Option Term) (done p : Pattern) : Prop :=
  done.Ungraphed inside ∨
    (inside.isSome ∧ ∃ graph done', done.takeGraphHeader? = some (graph, done') ∧
      done'.Ungraphed inside ∧ ∃ inner others, p = group inner others)

theorem ready_run (hdone : done.Ungraphed inside)
    (h : inside.isSome → Token.EveryGraph (HeadsGroup · p) ts) : Ready inside (run ts done) p := by
  by_cases hgraph : inside.isSome ∧ ∃ keyword ∈ ts, keyword.isWord "GRAPH"
  · obtain ⟨hinside, keyword, hmem, hkeyword⟩ := hgraph
    obtain ⟨init, after, rfl⟩ := List.append_of_mem hmem
    obtain ⟨hlength, inner, others, rfl⟩ :=
      h hinside keyword after (List.suffix_append _ _) hkeyword
    obtain ⟨graph, rfl⟩ := List.length_eq_one_iff.mp hlength
    have hinit : (run init done).Ungraphed inside := by
      refine ungraphed_run.mpr ⟨fun _ t ht ht' => ?_, hdone⟩
      -- two keywords would both have one token behind them
      obtain ⟨start, between, rfl⟩ := List.append_of_mem ht
      have hfirst := (h hinside t (between ++ [keyword, graph]) ⟨start, by simp⟩ ht').1
      simp at hfirst
    refine .inr ⟨hinside, graph, if init.isEmpty then done else run init done, ?_, ?_, inner, others,
      rfl⟩
    · simp [Pattern.takeGraphHeader?, splitGraphHeader?, hkeyword]
    · split
      · exact hdone
      · exact hinit
  · exact .inl (ungraphed_run.mpr
      ⟨fun hinside t ht hkeyword => hgraph ⟨hinside, t, ht, hkeyword⟩, hdone⟩)

/-- With all headers in front of groups no run comes to hold a new one. -/
theorem ungraphed_stripGraphsOnto (h : p.EveryGraph HeadsGroup inside) (hdone : Ready inside done p) :
    (stripGraphsOnto inside done p).1.Ungraphed inside := by
  induction p generalizing inside done with
  | nil =>
      obtain hdone | ⟨-, _, _, -, -, _, _, heq⟩ := hdone
      · exact hdone.reverseOnto ungraphed_nil
      · cases heq
  | run ts rest ih =>
      obtain hdone | ⟨-, _, _, -, -, _, _, heq⟩ := hdone
      · exact ih h.2 (ready_run hdone h.1)
      · cases heq
  | group inner rest ihinner ihrest =>
      obtain ⟨hinner, hrest⟩ := h
      have hstripped := ihinner hinner (.inl ungraphed_nil)
      rw [stripGraphsOnto]
      dsimp only
      split
      · next name graph done' htake =>
        have hdone' : done'.Ungraphed (some name) := by
          obtain hdone | ⟨-, _, _, htake', hdone', -⟩ := hdone
          · cases hdone.takeGraphHeader?.symm.trans htake
          · cases htake'.symm.trans htake
            exact hdone'
        exact ihrest hrest (.inl (hstripped.reverseOnto hdone'.terminate).terminate)
      · next hheader =>
        obtain hdone | ⟨hinside, _, _, htake, -⟩ := hdone
        · exact ihrest hrest (.inl ⟨hstripped, hdone⟩)
        · obtain ⟨name, rfl⟩ := Option.isSome_iff_exists.mp hinside
          exact (hheader _ _ _ rfl htake).elim
  | window name inner rest ihinner ihrest =>
      obtain ⟨hinner, hrest⟩ := h
      obtain hdone | ⟨-, _, _, -, -, _, _, heq⟩ := hdone
      · exact ihrest hrest (.inl ⟨ihinner hinner (.inl ungraphed_nil), hdone⟩)
      · cases heq

theorem Ungraphed.not_isWord {t : Token} (h : p.Ungraphed inside)
    (ht : (some name, .token t) ∈ p.entries inside) : ¬ t.isWord "GRAPH" := by
  induction p generalizing inside with
  | nil => cases ht
  | run ts rest ih =>
      obtain ⟨hrun, hrest⟩ := ungraphed_run.mp h
      rcases List.mem_append.mp ht with ht | ht
      · obtain ⟨t, hmem, heq⟩ := List.mem_map.mp ht
        cases heq
        exact hrun rfl t hmem
      · exact ih hrest ht
  | group inner rest ihinner ihrest =>
      exact (List.mem_append.mp ht).elim (ihinner h.1) (ihrest h.2)
  | window name' inner rest ihinner ihrest =>
      rcases List.mem_cons.mp ht with heq | ht
      · cases heq
      · exact (List.mem_append.mp ht).elim (ihinner h.1) (ihrest h.2)

/-! ### The removal as a whole -/

/-- What the removal of graphs takes out of a pattern and what it puts in. Outside windows nothing
changes. Inside, dots come in between the entries, and a keyword `GRAPH` goes with the token behind it,
which may be one of the dots; where the source names the graph behind each such keyword, the headers that
go are its own. The variables that are missing are names of removed graphs. If all headers stand in
front of groups, then none is left. -/
theorem entries_withoutWindowGraphs {p' : Pattern} {removed : List (Term × Token)}
    (h : p.withoutWindowGraphs = (p', removed)) :
    p'.outsideWindows = p.outsideWindows ∧
    (∃ dotted taken, taken.Perm removed ∧ WithDots (p.entries none) dotted ∧
      WithoutHeaders dotted (p'.entries none) taken) ∧
    (p.EveryGraph (fun after _ => Token.NamesGraph after) none →
      ∃ kept taken, taken.Perm removed ∧ WithoutHeaders (p.entries none) kept taken ∧
        WithDots kept (p'.entries none)) ∧
    p.variableNames =
      sortedNames (p'.variableOccurrences ++ removed.filterMap (·.2.variableName?)) ∧
    (p.EveryGraph HeadsGroup none →
      (∀ name t, (some name, .token t) ∈ p'.entries none → ¬ t.isWord "GRAPH") ∧
      p'.withoutWindowGraphs = (p', [])) := by
  obtain ⟨rfl, rfl⟩ := Prod.mk.inj h.symm
  obtain ⟨taken, hperm, hstrips⟩ :=
    exists_strips (everyGraph_of_forall (fun _ _ => .inl trivial) none p)
  refine ⟨outsideWindows_stripGraphsOnto nil p, ?_, fun hnamed => ?_, ?_, fun hheaded => ?_⟩
  · obtain ⟨dotted, hdots, hheaders⟩ := hstrips.withDots
    exact ⟨dotted, taken, hperm, hdots, hheaders⟩
  · obtain ⟨taken, hperm, hstrips⟩ := exists_strips (hnamed.imp fun _ _ => .inr)
    obtain ⟨kept, hheaders, hdots⟩ := hstrips.withoutHeaders
    exact ⟨kept, taken, hperm, hheaders, hdots⟩
  · refine sortedNames_eq_of_mem_iff fun name => ?_
    rw [variableOccurrences_eq none, variableOccurrences_eq none]
    exact (hstrips.variables_perm.trans ((hperm.filterMap _).append_left _)).mem_iff
  · have hfree := ungraphed_stripGraphsOnto hheaded (.inl ungraphed_nil)
    exact ⟨fun name t => hfree.not_isWord, stripGraphsOnto_of_ungraphed ungraphed_nil hfree⟩

end Done

/-- The name of a window. -/
def readings : Term := .iri ⟨"http://a/readings", by decide⟩

/-- A graph inside a window, behind a triple. -/
def withGraph : Pattern :=
  window readings
    (run [.variable "a", .word "a", .variable "b", .word "GRAPH", .variable "g"]
      (group (run [.variable "s", .variable "p", .variable "o"] nil) nil)) nil

/-- The same without the graph. -/
def withoutGraph : Pattern :=
  window readings
    (run [.variable "a", .word "a", .variable "b", .punct "."]
      (run [.variable "s", .variable "p", .variable "o", .punct "."] nil)) nil

theorem headsGroup_withGraph : withGraph.EveryGraph HeadsGroup none := by
  have hverb : Text.sameLetters "a" "GRAPH" = false := by decide
  simp [withGraph, EveryGraph, Token.everyGraph_cons, Token.everyGraph_nil, HeadsGroup, Token.isWord,
    hverb]

theorem entries_withoutWindowGraphs_withGraph :
    withGraph.withoutWindowGraphs = (withoutGraph, [(readings, .variable "g")]) ∧
    withGraph.EveryGraph HeadsGroup none ∧
    withGraph.EveryGraph (fun after _ => Token.NamesGraph after) none ∧
    withoutGraph.outsideWindows = withGraph.outsideWindows ∧
    (∃ kept taken, taken.Perm [(readings, .variable "g")] ∧
      WithoutHeaders (withGraph.entries none) kept taken ∧
      WithDots kept (withoutGraph.entries none)) ∧
    withoutGraph.withoutWindowGraphs = (withoutGraph, []) := by
  have hresult : withGraph.withoutWindowGraphs = (withoutGraph, [(readings, .variable "g")]) := by
    decide
  obtain ⟨houtside, -, hnamed, -, hheaded⟩ := entries_withoutWindowGraphs hresult
  exact ⟨hresult, headsGroup_withGraph, headsGroup_withGraph.namesGraph, houtside,
    hnamed headsGroup_withGraph.namesGraph, (hheaded headsGroup_withGraph).2⟩

/-- A graph that ends in a keyword, in front of a group. -/
def withLoneKeyword : Pattern :=
  window readings
    (run [.word "GRAPH", .variable "g"]
      (group (run [.variable "s", .variable "p", .word "GRAPH"] nil)
        (group (run [.variable "x", .variable "y", .variable "z"] nil) nil))) nil

/-- The dot that was put behind a keyword is taken for the name of a graph, and the keyword goes with
it, although no header ends in a dot. -/
theorem withoutWindowGraphs_takes_dot :
    ¬ ∃ kept taken, taken.Perm withLoneKeyword.withoutWindowGraphs.2 ∧
      WithoutHeaders (withLoneKeyword.entries none) kept taken ∧
      WithDots kept (withLoneKeyword.withoutWindowGraphs.1.entries none) := by
  rintro ⟨kept, taken, hperm, hheaders, -⟩
  have hremoved : withLoneKeyword.withoutWindowGraphs.2 =
      [(readings, .variable "g"), (readings, .punct ".")] := by decide
  have hdot := hheaders.mem_entries (readings, .punct ".") (hperm.mem_iff.mpr (by simp [hremoved]))
  revert hdot
  decide

end Pattern

end StreamQuery
