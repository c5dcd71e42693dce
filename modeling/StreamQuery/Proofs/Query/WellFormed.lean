import StreamQuery.Proofs.Sparql.Declarations

/-! # Well-formed queries

A well-formed query declares plain labels only, and what it selects cannot be mistaken for an operator.
Both follow from the layout of its base query: the declarations stand on lines of their own, and the line
behind them begins with the keyword of the form.
-/

namespace StreamQuery

open Text Token Page Sparql Recognizer

/-! ### The layout of a query -/

namespace Prologue

/-- The declarations of a prologue, each for a line of its own. -/
def lines (prologue : Prologue) : List String :=
  (prologue.base.toList.map fun base => s!"BASE <{base}>") ++
    prologue.prefixes.entries.map fun (label, space) => s!"PREFIX {label}: <{space}>"

variable (prologue : Prologue)

theorem marks_eq : prologue.marks =
    prologue.lines.flatMap Mark.line ++ if prologue.isEmpty then [] else [.blankLine] := by
  simp [marks, lines, List.flatMap_append, List.flatMap_map]

theorem ne_empty_of_mem_lines : ∀ line ∈ prologue.lines, line ≠ "" := by
  intro line hline
  rcases List.mem_append.mp hline with hline | hline
  · obtain ⟨base, -, rfl⟩ := List.mem_map.mp hline
    simp [toString]
  · obtain ⟨entry, -, rfl⟩ := List.mem_map.mp hline
    simp [toString]

theorem lines_eq_nil_iff : prologue.lines = [] ↔ prologue.isEmpty := by
  simp [lines, isEmpty]

theorem flatMap_lines : (prologue.lines.flatMap fun line => line.toList ++ ['\n']) =
    prologue.base.toList.flatMap baseLine ++ prologue.prefixes.entries.flatMap prefixLine := by
  have hbase : ∀ base : String, (s!"BASE <{base}>").toList ++ ['\n'] = baseLine base := fun base => by
    simp [toString, baseLine, String.toList_append]
  have hstart : ∀ entry : String × String,
      (s!"PREFIX {entry.1}: <{entry.2}>").toList ++ ['\n'] = prefixLine entry := fun entry => by
    simp [toString, prefixLine, String.toList_append]
  simp only [lines, List.flatMap_append, List.flatMap_map, hbase, hstart]

/-- The declarations stand in front of what is written behind them. -/
theorem toList_render_append (marks : List Mark) : ∃ gap, (gap = [] ∨ gap = ['\n']) ∧
    (render (prologue.marks ++ marks)).toList = prologue.base.toList.flatMap baseLine ++
      (prologue.prefixes.entries.flatMap prefixLine ++ (gap ++ (render marks).toList)) := by
  rw [marks_eq]
  by_cases hempty : prologue.isEmpty
  · refine ⟨[], .inl rfl, ?_⟩
    have hnil := prologue.flatMap_lines
    rw [prologue.lines_eq_nil_iff.mpr hempty] at hnil ⊢
    rw [if_pos hempty, ← List.append_assoc, ← hnil]
    rfl
  · refine ⟨['\n'], .inr rfl, ?_⟩
    have hlines : (prologue.lines.flatMap Mark.line).foldl write Page.empty =
        Page.empty.below (prologue.lines.reverse ++ []) := foldl_lines prologue.ne_empty_of_mem_lines []
    have hblank : (prologue.lines.flatMap Mark.line ++ [Mark.blankLine]).foldl write Page.empty =
        Page.empty.below ("" :: prologue.lines.reverse) := by
      rw [List.foldl_append, hlines, List.append_nil]
      cases hreverse : prologue.lines.reverse with
      | nil => exact absurd (prologue.lines_eq_nil_iff.mp (List.reverse_eq_nil_iff.mp hreverse)) hempty
      | cons line others =>
          have hline : line ≠ "" := prologue.ne_empty_of_mem_lines line
            (List.mem_reverse.mp (hreverse ▸ List.mem_cons_self))
          simp [write, endLine, below, Page.empty, hline]
    rw [if_neg hempty, render_append rfl hblank, String.toList_append,
      ← List.append_assoc (List.flatMap _ _), ← prologue.flatMap_lines]
    simp [String.toList_join, String.toList_append, List.flatMap_def, Function.comp_def]

end Prologue

/-! ### First lines -/

/-- What a query answers with begins with a keyword, and its first line has words only. -/
theorem ResultForm.exists_words (form : ResultForm) :
    ∃ word ∈ ["SELECT", "CONSTRUCT", "ASK", "DESCRIBE"], ∃ (words : List String) (marks : List Mark),
      ∀ rest, form.marks none ++ .newline :: rest =
        [.word word] ++ (words.map Mark.word ++ .newline :: (marks ++ rest)) := by
  cases form with
  | select modifier projection =>
      refine ⟨"SELECT", by decide, modifier.toList.map Token.text ++ [join projection], [], ?_⟩
      intro rest
      simp [marks]
  | construct template =>
      cases template with
      | none => exact ⟨"CONSTRUCT", by decide, [], [], fun rest => rfl⟩
      | some tokens =>
          refine ⟨"CONSTRUCT", by decide, ["\x7b"],
            .indent :: (Mark.tokens tokens ++ [.newline, .dedent, .word "\x7d", .newline]), ?_⟩
          intro rest
          simp [marks, Mark.braces]
  | ask => exact ⟨"ASK", by decide, [], [], fun rest => rfl⟩
  | describe targets => exact ⟨"DESCRIBE", by decide, [join targets], [], fun rest => rfl⟩

namespace QueryBody

variable (body : QueryBody) (layout : BodyLayout)

theorem exists_marks : ∃ rest, body.marks layout = body.form.marks layout.operator ++ .newline :: rest :=
  ⟨_, by simp only [marks, List.append_assoc, List.cons_append]; rfl⟩

variable (h : layout.operator = none)

include h

/-- A body begins with the keyword of its form. -/
theorem exists_first_word : ∃ word ∈ ["SELECT", "CONSTRUCT", "ASK", "DESCRIBE"],
    word.toList <+: (render (body.marks layout)).toList := by
  obtain ⟨rest, hrest⟩ := body.exists_marks layout
  obtain ⟨word, hword, words, marks, hwords⟩ := body.form.exists_words
  have hne : word ≠ "" := by
    rintro rfl
    exact absurd hword (by decide)
  refine ⟨word, hword, ?_⟩
  rw [hrest, h, hwords]
  exact line_prefix_render hne (by simp [write, hne, Page.empty]) words _

/-- Behind the keyword of a selection without a modifier there is what is selected. -/
theorem select_prefix {projection : List Token} (hform : body.form = .select none projection)
    (hprojection : join projection ≠ "") :
    ("SELECT " ++ join projection).toList <+: (render (body.marks layout)).toList := by
  obtain ⟨rest, hrest⟩ := body.exists_marks layout
  rw [hrest, h, hform]
  refine line_prefix_render (by simp) ?_ [] rest
  simp [ResultForm.marks, write, hprojection, Page.empty]

end QueryBody

/-! ### What well-formed queries are made of -/

theorem exists_takes_of_isQuery {text : String} (h : isQuery text) :
    ∃ depth value, Takes (Sparql.query depth) text.toList value [] := by
  obtain ⟨value, hvalue⟩ := Option.isSome_iff_exists.mp h
  unfold readAll? at hvalue
  split at hvalue
  · next found notes hfound => exact ⟨_, found, _, notes, hfound⟩
  · cases hvalue

/-- Words in upper case that a form of query begins with. -/
theorem exists_cons_of_prefix {word : String} {cs : List Char}
    (hword : word ∈ ["SELECT", "CONSTRUCT", "ASK", "DESCRIBE"]) (h : word.toList <+: cs) :
    skipSpace false cs = cs ∧ BeginsForm cs := by
  have hall : ∀ word ∈ ["SELECT", "CONSTRUCT", "ASK", "DESCRIBE"], word.toList.head?.any fun c =>
      c ∉ [' ', '\t', '\n', '\r', '#'] ∧ c.toLower ∈ ['s', 'c', 'd', 'a'] := by
    decide
  obtain ⟨c, hc, hfits⟩ := (Option.any_eq_true _ _).mp (hall word hword)
  obtain ⟨hspace, hlower⟩ := of_decide_eq_true hfits
  obtain ⟨more, rfl⟩ := h
  obtain ⟨others, hothers⟩ := List.head?_eq_some_iff.mp hc
  rw [hothers]
  exact ⟨skipSpace_cons hspace _, c, rfl, hlower⟩

/-- The keyword of an operator begins with two letters, in any case. -/
theorem exists_cons_of_isOperator {token : Token} (h : token.isOperator) : ∃ c d cs,
    token.text.toList = c :: d :: cs ∧ c.toUpper ∈ ['I', 'D', 'R'] ∧ d.toUpper = 'S' := by
  obtain ⟨operator, -, hoperator⟩ := List.any_eq_true.mp h
  obtain ⟨keyword, hkeyword, hword⟩ := (Option.any_eq_true _ _).mp hoperator
  have hletters : ∃ c ∈ ['I', 'D', 'R'], ∃ ws, keyword.toList.map Char.toUpper = c :: 'S' :: ws := by
    cases operator <;> cases hkeyword
    · exact ⟨'I', by decide, _, rfl⟩
    · exact ⟨'D', by decide, _, rfl⟩
    · exact ⟨'R', by decide, _, rfl⟩
  obtain ⟨w, hw, ws, hws⟩ := hletters
  cases token with
  | word text =>
      have hsame : text.toList.map Char.toUpper = w :: 'S' :: ws := (eq_of_beq hword).trans hws
      obtain ⟨c, cs, htext, rfl, hcs⟩ := List.map_eq_cons_iff.mp hsame
      obtain ⟨d, others, rfl, hd, -⟩ := List.map_eq_cons_iff.mp hcs
      exact ⟨c, d, others, htext, hw, hd⟩
  | _ => cases hword

/-- What begins like the keyword of an operator is no selection. -/
theorem not_takes_selection {group : Recognizer Unit} {depth : Nat} {items : Selection} {c d : Char}
    {cs rest : List Char} (hc : c.toUpper ∈ ['I', 'D', 'R']) (hd : d.toUpper = 'S') :
    ¬ Takes (selection group depth) (c :: d :: cs) items rest := by
  intro h
  rcases head?_of_takes_selection h with ⟨word, hword, hafter⟩ | ⟨c', hc', hsign⟩
  · -- the second letter of a modifier is another one
    have hletters : ∀ word ∈ ["distinct", "reduced"],
        ∃ v w ws, word.toList = v :: w :: ws ∧ w.toUpper ≠ 'S' := by
      simp only [List.forall_mem_cons, List.not_mem_nil, false_imp_iff, implies_true, and_true]
      exact ⟨⟨_, _, _, rfl, by decide⟩, ⟨_, _, _, rfl, by decide⟩⟩
    obtain ⟨v, w, ws, hword, hw⟩ := hletters word hword
    obtain ⟨behind, hbehind⟩ := Option.isSome_iff_exists.mp hafter
    rw [hword] at hbehind
    obtain ⟨rfl, -⟩ := afterWord?_cons_eq_some (afterWord?_cons_eq_some hbehind).2
    exact hw ((toUpper_toLower d).trans hd)
  · cases hc'
    have hsigns : ∀ sign ∈ ['?', '$', '(', '*'], sign.toUpper ∉ ['I', 'D', 'R'] := by decide
    exact hsigns c hsign hc

namespace Query

/-- The layout of the base query. -/
def plainLayout (query : Query) : BodyLayout :=
  ⟨none, [], fun name => some ("GRAPH " ++ name.queryText query.prologue.prefixes)⟩

variable {query : Query} (h : query.isWellFormed) (hprologue : query.prologue.FromTokens)

include h hprologue

/-- The declarations of a well-formed query are taken one by one, and then its body. -/
theorem plain_and_takes_of_isWellFormed :
    (∀ entry ∈ query.prologue.prefixes.entries, PrefixMapping.IsPlainLabel entry.1) ∧
      ∀ last, afterWord? "select".toList (render (query.body.marks query.plainLayout)).toList = some last →
        ∃ group depth items rest, Takes (selection group depth) (skipSpace false last) items rest := by
  obtain ⟨depth, value, htakes⟩ := exists_takes_of_isQuery h
  obtain ⟨gap, hgap, htext⟩ :=
    query.prologue.toList_render_append (query.body.marks query.plainLayout)
  obtain ⟨word, hword, hfirst⟩ := query.body.exists_first_word query.plainLayout rfl
  obtain ⟨hskip, hbegins⟩ := exists_cons_of_prefix hword hfirst
  generalize hbody : (render (query.body.marks query.plainLayout)).toList = body at *
  have hgapskip : skipSpace false (gap ++ body) = body := by
    rcases hgap with rfl | rfl
    · exact hskip
    · exact hskip
  have hplain : query.plainText.toList = _ := htext
  rw [hplain] at htakes
  obtain ⟨behind, hmany, hform, hselect⟩ := exists_of_takes_query htakes
  have hclosing : ∀ text : String, (∀ c ∈ text.toList, Lexeme.isIriChar c) → '>' ∉ text.toList :=
    fun text htext hmem => absurd (htext '>' hmem) (by decide)
  have hbase := takesMany_of_base (fun text htext => hclosing text (hprologue.base text htext)) hform
    hmany
  obtain ⟨hplain, rfl⟩ := plain_of_takesMany_prefixes hprologue.chars
    (fun entry hentry => hclosing entry.2 (hprologue.spaces entry hentry))
    (hgapskip.symm ▸ hbegins) hform hbase
  rw [hgapskip] at hselect
  refine ⟨hplain, fun last hlast => ?_⟩
  obtain ⟨group, items, rest, hitems⟩ := hselect last hlast
  exact ⟨group, depth, items, rest, hitems⟩

/-- The declared labels of a well-formed query are plain. -/
theorem plain_of_isWellFormed :
    ∀ entry ∈ query.prologue.prefixes.entries, PrefixMapping.IsPlainLabel entry.1 :=
  (plain_and_takes_of_isWellFormed h hprologue).1

/-- What a well-formed query selects does not begin with the keyword of an operator. -/
theorem not_isOperator_of_isWellFormed {projection : List Token}
    (hform : query.body.form = .select none projection) :
    ∀ t ∈ projection.head?, ¬ t.isOperator := by
  intro t ht hoperator
  obtain ⟨others, rfl⟩ := List.head?_eq_some_iff.mp ht
  obtain ⟨c, d, cs, htext, hc, hd⟩ := exists_cons_of_isOperator hoperator
  have hjoin : (join (t :: others)).toList = c :: d :: (cs ++ joinAfter none (some t) others) := by
    rw [join, String.toList_ofList, joinAfter, htext]
    rfl
  have hstart := query.body.select_prefix query.plainLayout rfl hform (fun hempty => by
    rw [hempty] at hjoin
    cases hjoin)
  obtain ⟨more, hmore⟩ := hstart
  rw [String.toList_append, hjoin] at hmore
  obtain ⟨-, hselect⟩ := plain_and_takes_of_isWellFormed h hprologue
  obtain ⟨group, depth, items, rest, hitems⟩ := hselect _ (by
    have hspaced : "SELECT ".toList = "SELECT".toList ++ [' '] := by decide
    rw [← hmore, hspaced, List.append_assoc, List.append_assoc]
    exact afterWord?_append (by decide) _)
  have hspace : c ∉ [' ', '\t', '\n', '\r', '#'] := by
    have hspaces : ∀ space ∈ [' ', '\t', '\n', '\r', '#'], space.toUpper ∉ ['I', 'D', 'R'] := by decide
    exact fun hmem => hspaces c hmem hc
  exact not_takes_selection hc hd (skipSpace_cons hspace _ ▸ hitems)

end Query

end StreamQuery
