import StreamQuery.Query

/-!
# Pages

How query text is laid out in indented lines. A query is first turned into marks, words and
instructions for lines; a page then writes the marks one after another.
-/

namespace StreamQuery

/-- A word of the text, or an instruction for its lines. -/
inductive Mark where
  | word (text : String)
  /-- Ends a line that has a word. -/
  | newline
  /-- Ends the line and leaves the next one empty, except at the top and below an empty line. -/
  | blankLine
  | indent
  | dedent
  deriving DecidableEq, Repr

/-- A text that is being written. -/
structure Page where
  /-- The finished lines, the last one first. -/
  finished : List String
  /-- The words of the line that is being written. -/
  line : String
  depth : Nat

namespace Page

/-- A page on which nothing is written. -/
def empty : Page := ⟨[], "", 0⟩

/-- Ends a line that has a word. -/
def endLine (page : Page) : Page :=
  if page.line = "" then page
  else
    let indent := String.ofList (List.replicate (2 * page.depth) ' ')
    { page with finished := (indent ++ page.line) :: page.finished, line := "" }

/-- Writes a mark; a word comes one space behind the last one. -/
def write (page : Page) : Mark → Page
  | .word text =>
    if text = "" then page
    else if page.line = "" then { page with line := text }
    else { page with line := page.line ++ " " ++ text }
  | .newline => page.endLine
  | .blankLine =>
    let page := page.endLine
    match page.finished with
    | [] | "" :: _ => page
    | finished => { page with finished := "" :: finished }
  | .indent => { page with depth := page.depth + 1 }
  | .dedent => { page with depth := page.depth - 1 }

/-- The lines of a page, each with its end. -/
def text (page : Page) : String :=
  String.join (page.endLine.finished.reverse.map (· ++ "\n"))

/-- The text of marks. -/
def render (marks : List Mark) : String := (marks.foldl write empty).text

end Page

namespace Mark

/-- A line of its own. -/
def line (text : String) : List Mark := [.newline, .word text, .newline]

/-- Tokens divided behind every dot. -/
def statements : List Token → List (List Token)
  | [] => []
  | token :: rest =>
    if token.isPunct "." then [token] :: statements rest
    else
      match statements rest with
      | [] => [[token]]
      | statement :: others => (token :: statement) :: others

/-- Tokens as they stand, with the end of a line behind every dot. -/
def tokens (tokens : List Token) : List Mark :=
  (statements tokens).flatMap fun statement =>
    .word (Token.join statement) ::
      if statement.getLast?.any (·.isPunct ".") then [.newline] else []

/-- A block of lines in braces, the braces at the end and at the start of a line. -/
def braces (inner : List Mark) : List Mark :=
  [.word "\x7b", .newline, .indent] ++ inner ++ [.newline, .dedent, .word "\x7d"]

end Mark

/-- The members of a group. A window block stands on lines of its own, behind its header if it has
one. -/
def Pattern.marks (header : Term → Option String) : Pattern → List Mark
  | nil => []
  | run tokens rest => Mark.tokens tokens ++ rest.marks header
  | group inner rest => Mark.braces (inner.marks header) ++ rest.marks header
  | window name inner rest =>
    .newline :: ((header name).toList.map Mark.word ++ Mark.braces (inner.marks header) ++
      .newline :: rest.marks header)

/-- The declarations in front of a query, one a line and an empty line behind them. -/
def Prologue.marks (prologue : Prologue) : List Mark :=
  (prologue.base.toList.flatMap fun base => Mark.line s!"BASE <{base}>") ++
    (prologue.prefixes.entries.flatMap fun (label, space) =>
      Mark.line s!"PREFIX {label}: <{space}>") ++
    if prologue.isEmpty then [] else [.blankLine]

/-- How the parts that concern streams are written around a query body. -/
structure BodyLayout where
  /-- The keyword behind `SELECT` or `CONSTRUCT`. -/
  operator : Option String
  /-- Clauses behind the dataset clauses, one a line. -/
  clauses : List String
  /-- What stands in front of a window block. -/
  header : Term → Option String

/-- What a query answers with. -/
def ResultForm.marks (operator : Option String) : ResultForm → List Mark
  | select modifier projection =>
    .word "SELECT" :: operator.toList.map Mark.word ++
      modifier.toList.map (fun token => Mark.word token.text) ++
      [.word (Token.join projection)]
  | construct template =>
    .word "CONSTRUCT" :: operator.toList.map Mark.word ++
      template.toList.flatMap fun tokens => Mark.braces (Mark.tokens tokens)
  | ask => [.word "ASK"]
  | describe targets => [.word "DESCRIBE", .word (Token.join targets)]

/-- A graph that a query reads. -/
def DatasetClause.marks : DatasetClause → List Mark
  | default graph => Mark.line s!"FROM {graph.text}"
  | named graph => Mark.line s!"FROM NAMED {graph.text}"

/-- A query body from its form to its modifiers. -/
def QueryBody.marks (layout : BodyLayout) (body : QueryBody) : List Mark :=
  body.form.marks layout.operator ++ .newline ::
    body.dataset.flatMap DatasetClause.marks ++
    layout.clauses.flatMap Mark.line ++
    (body.pattern.toList.flatMap fun pattern =>
      .word "WHERE" :: Mark.braces (pattern.marks layout.header) ++ [.newline]) ++
    if body.modifiers.isEmpty then [] else Mark.tokens body.modifiers ++ [.newline]

end StreamQuery
