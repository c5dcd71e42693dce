import StreamQuery.Proofs.Token.Join
import StreamQuery.Query.Page

/-! # The tokens of a page

The lines of a page are split into the tokens of its words, in the order in which they are
written. Indentation, ends of lines and empty lines have no tokens.
-/

namespace StreamQuery

open Token

/-- Marks whose words have the given tokens altogether. -/
inductive Written : List Mark → List Token → Prop where
  | nil : Written [] []
  | word {text : String} {ts us : List Token} {marks : List Mark} (h : Reads text.toList ts)
      (hrest : Written marks us) : Written (.word text :: marks) (ts ++ us)
  | layout {mark : Mark} {marks : List Mark} {ts : List Token} (h : ∀ text, mark ≠ .word text)
      (hrest : Written marks ts) : Written (mark :: marks) ts

namespace Written

variable {marks marks' : List Mark} {ts us : List Token}

theorem append (h : Written marks ts) (h' : Written marks' us) :
    Written (marks ++ marks') (ts ++ us) := by
  induction h with
  | nil => exact h'
  | word hword _ ih =>
      rw [List.append_assoc]
      exact .word hword ih
  | layout hmark _ ih => exact .layout hmark ih

theorem flatMap {α : Type} {f : α → List Mark} {g : α → List Token} (as : List α)
    (h : ∀ a ∈ as, Written (f a) (g a)) : Written (as.flatMap f) (as.flatMap g) := by
  induction as with
  | nil => exact .nil
  | cons a as ih =>
      obtain ⟨ha, has⟩ := List.forall_mem_cons.mp h
      exact append ha (ih has)

theorem newline (h : Written marks ts) : Written (.newline :: marks) ts := .layout nofun h

theorem line {text : String} (h : Reads text.toList ts) : Written (Mark.line text) ts := by
  have hword := word h (newline nil)
  rw [List.append_nil] at hword
  exact newline hword

theorem braces (h : Written marks ts) :
    Written (Mark.braces marks) (.punct "\x7b" :: ts ++ [.punct "\x7d"]) := by
  have hopening : Reads "\x7b".toList [.punct "\x7b"] := .token (.punct (by decide))
  have hclosing : Reads "\x7d".toList [.punct "\x7d"] := .token (.punct (by decide))
  have hend : Written [.newline, .dedent, .word "\x7d"] [.punct "\x7d"] :=
    newline (.layout nofun (.word hclosing .nil))
  have hinner : Written ([.newline, .indent] ++ (marks ++ [.newline, .dedent, .word "\x7d"]))
      (ts ++ [.punct "\x7d"]) := newline (.layout nofun (h.append hend))
  have hbraces := word hopening hinner
  simpa [Mark.braces] using hbraces

end Written

/-! ### Keywords -/

/-- The keywords that stand in written queries. -/
def keywords : List String :=
  ["BASE", "PREFIX", "REGISTER", "STREAM", "ISTREAM", "DSTREAM", "RSTREAM", "AS", "SELECT",
    "CONSTRUCT", "ASK", "DESCRIBE", "FROM", "NAMED", "WINDOW", "ON", "RANGE", "ITEM", "STEP", "TO",
    "NOW", "WHERE", "GRAPH", "TRIPLES", "SLIDE"]

theorem lexical_keyword {word : String} (h : word ∈ keywords) : (Token.word word).Lexical := by
  have hall : ∀ keyword ∈ keywords, keyword ≠ "" ∧ ∀ c ∈ keyword.toList, c.isAlpha := by decide
  exact .of_isAlpha (hall word h).1 (hall word h).2

/-- A keyword and what stands behind it. -/
theorem Token.Reads.keyword (word : String) (h : word ∈ keywords) {cs : List Char}
    {ts : List Token} (hcs : Reads cs ts) :
    Reads (word.toList ++ ' ' :: cs) (.word word :: ts) :=
  (Reads.token (lexical_keyword h)).append hcs

theorem Written.keyword (word : String) (h : word ∈ keywords) {marks : List Mark}
    {ts : List Token} (hrest : Written marks ts) :
    Written (.word word :: marks) (.word word :: ts) :=
  .word (.token (lexical_keyword h)) hrest

/-! ### Statements -/

namespace Mark

variable {ts : List Token}

theorem flatten_statements (ts : List Token) : (statements ts).flatten = ts := by
  induction ts with
  | nil => rfl
  | cons t ts ih =>
      rw [statements]
      split
      · rw [List.flatten_cons, ih]
        rfl
      · split
        · next hnil =>
          rw [hnil] at ih
          rw [← ih]
          rfl
        · next statement others hcons =>
          rw [hcons] at ih
          rw [← ih]
          rfl

/-- Tokens are written with their own text, whatever their division into lines. -/
theorem written_tokens (hlexical : ∀ t ∈ ts, t.Lexical) (hsep : Separable ts) :
    Written (Mark.tokens ts) ts := by
  have hstatement : ∀ statement ∈ statements ts, Written
      (.word (Token.join statement) ::
        if statement.getLast?.any (·.isPunct ".") then [.newline] else []) statement := by
    intro statement hmem
    have hwithin : statement <:+: ts := by
      have := List.infix_of_mem_flatten hmem
      rwa [flatten_statements] at this
    have hreads := Reads.join (fun t ht => hlexical t (hwithin.subset ht)) (hsep.of_isInfix hwithin)
    have hend : Written (if statement.getLast?.any (·.isPunct ".") then [.newline] else []) [] := by
      split
      · exact .newline .nil
      · exact .nil
    have hwritten := Written.word hreads hend
    rwa [List.append_nil] at hwritten
  have hall := Written.flatMap (statements ts) hstatement
  rwa [List.flatMap_id', flatten_statements] at hall

end Mark

/-! ### Lines -/

namespace Page

/-- The text of the finished lines. -/
def finishedText (page : Page) : List Char :=
  page.finished.reverse.flatMap fun line => line.toList ++ ['\n']

/-- A page on which the given tokens are written. -/
structure Holds (page : Page) (done current : List Token) : Prop where
  finished : ∀ rest, tokens? (page.finishedText ++ rest) = (tokens? rest).map (done ++ ·)
  line : Reads page.line.toList current

variable {page : Page} {done current ts : List Token}

theorem tokens?_spaces (n : Nat) (rest : List Char) :
    tokens? (List.replicate n ' ' ++ rest) = tokens? rest := by
  induction n with
  | zero => rfl
  | succ n ih => rw [List.replicate_succ, List.cons_append, tokens?_space (.inl rfl), ih]

theorem Holds.empty : Holds empty [] [] where
  finished rest := by simp [finishedText, Page.empty]
  line := .nil

theorem Holds.endLine (h : Holds page done current) : Holds page.endLine (done ++ current) [] := by
  unfold Page.endLine
  split
  · next hline =>
    have hcurrent := h.line
    rw [hline] at hcurrent
    obtain rfl := hcurrent.eq_nil
    refine ⟨?_, h.line⟩
    rw [List.append_nil]
    exact h.finished
  · refine ⟨fun rest => ?_, .nil⟩
    have htext : finishedText { page with
        finished := (String.ofList (List.replicate (2 * page.depth) ' ') ++ page.line) ::
          page.finished, line := "" } ++ rest =
        page.finishedText ++ (List.replicate (2 * page.depth) ' ' ++
          (page.line.toList ++ ('\n' :: rest))) := by
      simp [finishedText, String.toList_append]
    rw [htext, h.finished, tokens?_spaces, h.line _ (.newline rest), tokens?_space (.inr rfl),
      Option.map_map]
    simp [Function.comp_def]

theorem Holds.writeWord (h : Holds page done current) {text : String} (hword : Reads text.toList ts) :
    Holds (page.write (.word text)) done (current ++ ts) := by
  unfold Page.write
  dsimp only
  split
  · next htext =>
    rw [htext] at hword
    obtain rfl := hword.eq_nil
    rwa [List.append_nil]
  · split
    · next hline =>
      have hcurrent := h.line
      rw [hline] at hcurrent
      obtain rfl := hcurrent.eq_nil
      exact ⟨h.finished, hword⟩
    · refine ⟨h.finished, ?_⟩
      rw [String.toList_append, String.toList_append, List.append_assoc]
      exact h.line.append hword

theorem Holds.writeBlank (h : Holds page done []) :
    Holds { page with finished := "" :: page.finished } done [] where
  finished rest := by
    have htext : finishedText { page with finished := "" :: page.finished } ++ rest =
        page.finishedText ++ ('\n' :: rest) := by simp [finishedText]
    rw [htext, h.finished, tokens?_space (.inr rfl)]
  line := h.line

/-- A mark without a word adds nothing. -/
theorem Holds.writeLayout (h : Holds page done current) {mark : Mark}
    (hmark : ∀ text, mark ≠ .word text) :
    ∃ done' current', Holds (page.write mark) done' current' ∧ done' ++ current' = done ++ current := by
  cases mark with
  | word text => exact absurd rfl (hmark text)
  | newline => exact ⟨_, [], h.endLine, List.append_nil _⟩
  | blankLine =>
      refine ⟨_, [], ?_, List.append_nil _⟩
      unfold Page.write
      dsimp only
      split
      · exact h.endLine
      · exact h.endLine
      · exact h.endLine.writeBlank
  | indent => exact ⟨done, current, ⟨h.finished, h.line⟩, rfl⟩
  | dedent => exact ⟨done, current, ⟨h.finished, h.line⟩, rfl⟩

/-- A page on which marks are written one after another. -/
theorem Holds.writeAll {marks : List Mark} (hmarks : Written marks ts)
    (h : Holds page done current) :
    ∃ done' current', Holds (marks.foldl write page) done' current' ∧
      done' ++ current' = done ++ current ++ ts := by
  -- the page holds what was written so far
  induction hmarks generalizing page done current with
  | nil => exact ⟨done, current, h, (List.append_nil _).symm⟩
  | word hword _ ih =>
      obtain ⟨done', current', hpage, htokens⟩ := ih (h.writeWord hword)
      exact ⟨done', current', hpage, by simpa using htokens⟩
  | layout hmark _ ih =>
      obtain ⟨done', current', hpage, htokens⟩ := h.writeLayout hmark
      rw [← htokens]
      exact ih hpage

/-- The text of a page is that of its lines, the last one ended. -/
theorem toList_render (marks : List Mark) :
    (render marks).toList = (marks.foldl write Page.empty).endLine.finishedText := by
  simp [render, text, finishedText, String.toList_join, String.toList_append,
    List.flatMap_def, Function.comp_def]

/-- The tokens of a page are the tokens of its words. -/
theorem tokens?_render {marks : List Mark} (h : Written marks ts) :
    tokens? (render marks).toList = some ts := by
  obtain ⟨done, current, hpage, htokens⟩ := Holds.empty.writeAll h
  have hend := hpage.endLine.finished []
  rw [tokens?_nil, htokens] at hend
  rw [toList_render]
  simpa using hend

/-! ### Pages below others -/

/-- A page that goes on below finished lines, the last one first. -/
def below (lines : List String) (page : Page) : Page :=
  { page with finished := page.finished ++ lines }

theorem endLine_below (lines : List String) (page : Page) :
    (page.below lines).endLine = page.endLine.below lines := by
  unfold endLine below
  dsimp only
  split <;> rfl

/-- Below an empty line, a page is written as if it began there. -/
theorem write_below {lines : List String} (h : lines.head? = some "") (page : Page) (mark : Mark) :
    (page.below lines).write mark = (page.write mark).below lines := by
  cases mark with
  | word text =>
      unfold write below
      dsimp only
      split
      · rfl
      · split <;> rfl
  | newline => exact endLine_below lines page
  | blankLine =>
      -- on an empty page no blank line is written, and below an empty line none either
      obtain ⟨others, rfl⟩ := List.head?_eq_some_iff.mp h
      unfold write
      dsimp only
      rw [endLine_below]
      generalize page.endLine = ended
      obtain ⟨finished, line, depth⟩ := ended
      cases finished with
      | nil => rfl
      | cons last finished =>
          by_cases hlast : last = ""
          · subst hlast
            rfl
          · simp [below, hlast]
  | indent => rfl
  | dedent => rfl

theorem foldl_write_below {lines : List String} (h : lines.head? = some "") (marks : List Mark)
    (page : Page) : marks.foldl write (page.below lines) = (marks.foldl write page).below lines := by
  induction marks generalizing page with
  | nil => rfl
  | cons mark marks ih => rw [List.foldl_cons, write_below h, ih, List.foldl_cons]

theorem text_below (lines : List String) (page : Page) :
    (page.below lines).text = String.join (lines.reverse.map (· ++ "\n")) ++ page.text := by
  rw [text, endLine_below, text, ← String.toList_inj]
  simp [below, String.toList_join, String.toList_append]

/-- Marks that are written below an empty line come to the text of their own page. -/
theorem render_append {marks marks' : List Mark} {lines : List String}
    (hlines : lines.head? = some "") (h : marks.foldl write empty = empty.below lines) :
    render (marks ++ marks') = String.join (lines.reverse.map (· ++ "\n")) ++ render marks' := by
  rw [render, List.foldl_append, h, foldl_write_below hlines, text_below]
  rfl

/-- Lines of their own are added below the lines that are there. -/
theorem foldl_lines {texts : List String} (h : ∀ text ∈ texts, text ≠ "") (lines : List String) :
    (texts.flatMap Mark.line).foldl write (empty.below lines) = empty.below (texts.reverse ++ lines) := by
  induction texts generalizing lines with
  | nil => rfl
  | cons text texts ih =>
      obtain ⟨htext, htexts⟩ := List.forall_mem_cons.mp h
      have hline : (Mark.line text).foldl write (empty.below lines) = empty.below (text :: lines) := by
        simp [Mark.line, write, endLine, below, empty, htext]
      rw [List.flatMap_cons, List.foldl_append, hline, ih htexts]
      simp

/-! ### First lines -/

theorem finished_suffix_endLine (page : Page) : page.finished <:+ page.endLine.finished := by
  unfold endLine
  split
  · exact List.suffix_rfl
  · exact List.suffix_cons _ _

theorem finished_suffix_write (page : Page) (mark : Mark) :
    page.finished <:+ (page.write mark).finished := by
  cases mark with
  | word text =>
      unfold write
      dsimp only
      split
      · exact List.suffix_rfl
      · split <;> exact List.suffix_rfl
  | newline => exact finished_suffix_endLine page
  | blankLine =>
      refine (finished_suffix_endLine page).trans ?_
      unfold write
      dsimp only
      split
      · exact List.suffix_rfl
      · exact List.suffix_rfl
      · exact List.suffix_cons _ _
  | indent => exact List.suffix_rfl
  | dedent => exact List.suffix_rfl

theorem finished_suffix_foldl (marks : List Mark) (page : Page) :
    page.finished <:+ (marks.foldl write page).finished := by
  induction marks generalizing page with
  | nil => exact List.suffix_rfl
  | cons mark marks ih => exact (finished_suffix_write page mark).trans (ih _)

/-- Lines that are finished stay in front of the text. -/
theorem isPrefix_finishedText (marks : List Mark) (page : Page) :
    page.finishedText <+: (marks.foldl write page).endLine.finishedText := by
  obtain ⟨more, hmore⟩ := (finished_suffix_foldl marks page).trans (finished_suffix_endLine _)
  unfold finishedText
  rw [← hmore, List.reverse_append, List.flatMap_append]
  exact List.prefix_append _ _

/-- The first line of a page begins with the words that are written first. -/
theorem line_prefix_render {marks : List Mark} {line : String} (hline : line ≠ "")
    (h : marks.foldl write empty = ⟨[], line, 0⟩) (words : List String) (marks' : List Mark) :
    line.toList <+: (render (marks ++ (words.map Mark.word ++ .newline :: marks'))).toList := by
  have hwords : ∀ words : List String, ∀ line : String, line ≠ "" → ∃ more : String,
      (words.map Mark.word).foldl write ⟨[], line, 0⟩ = ⟨[], line ++ more, 0⟩ := by
    intro words
    induction words with
    | nil => exact fun line _ => ⟨"", by rw [String.append_empty]; rfl⟩
    | cons word words ih =>
        intro line hline
        rw [List.map_cons, List.foldl_cons]
        by_cases hword : word = ""
        · obtain ⟨more, hmore⟩ := ih line hline
          exact ⟨more, by simpa [write, hword] using hmore⟩
        · obtain ⟨more, hmore⟩ := ih (line ++ " " ++ word) (by simp [hword])
          refine ⟨" " ++ word ++ more, ?_⟩
          simpa [write, hword, hline, String.append_assoc] using hmore
  obtain ⟨more, hmore⟩ := hwords words line hline
  have hne : line ++ more ≠ "" := by simp [hline]
  rw [toList_render, List.foldl_append, h, List.foldl_append, hmore, List.foldl_cons]
  refine List.IsPrefix.trans ?_ (isPrefix_finishedText marks' _)
  simp [write, endLine, finishedText, hne, String.toList_append]

end Page

end StreamQuery
