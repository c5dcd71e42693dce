import StreamQuery.Query.Page

/-!
# Writing queries

The text of a query in its own language, the text of its body alone, and the text of the query of
the base language that remains without the stream extensions.
-/

namespace StreamQuery

/-- The declaration of a window. -/
def Window.clause (prefixes : PrefixMapping) (window : Window) : String :=
  let slot (term : Term) : String := term.slotText prefixes
  let frame := match window.frame with
    | .logical range => "RANGE " ++ slot range
    | .past start stop => "FROM NOW-" ++ slot start ++ " TO NOW-" ++ slot stop
    | .physical items => "ITEM " ++ slot items
  let step := match window.step with
    | some step => " STEP " ++ slot step
    | none => ""
  "FROM NAMED WINDOW " ++ slot window.id ++ " ON " ++ slot window.stream ++
    " [" ++ frame ++ step ++ "]"

namespace Query

/-- The header of a window block in the language of the query. -/
def windowHeader (query : Query) (name : Term) : Option String :=
  some ("WINDOW " ++ name.queryText query.prologue.prefixes)

/-- Whether the result of a query can hold the keyword of its operator. -/
def resultHasOperator (query : Query) : Bool :=
  query.form == .select || query.form == .construct

/-- The registration of the output stream. Where the result cannot hold the keyword of the
operator, it stands here. -/
def registerMarks (query : Query) : List Mark :=
  match query.output with
  | none => []
  | some stream =>
    let keyword :=
      if query.resultHasOperator then "STREAM" else query.operator.keyword?.getD "STREAM"
    Mark.line ("REGISTER " ++ keyword ++ " " ++ stream.queryText query.prologue.prefixes ++ " AS")

/-- The text of a query. -/
def nativeText (query : Query) : String :=
  let layout : BodyLayout := {
    operator := if query.resultHasOperator then query.operator.keyword? else none
    clauses := query.windows.map (Window.clause query.prologue.prefixes)
    header := query.windowHeader }
  Page.render (query.prologue.marks ++ query.registerMarks ++ query.body.marks layout)

/-- The prologue and the body with its window blocks, without window declarations, registration
and operator. -/
def bodyText (query : Query) : String :=
  Page.render (query.prologue.marks ++ query.body.marks ⟨none, [], query.windowHeader⟩)

/-- The query of the base language: as `bodyText`, with the window blocks as named graphs. -/
def plainText (query : Query) : String :=
  let header (name : Term) : Option String :=
    some ("GRAPH " ++ name.queryText query.prologue.prefixes)
  Page.render (query.prologue.marks ++ query.body.marks ⟨none, [], header⟩)

end Query

end StreamQuery
