import StreamQuery.Query

/-!
# Reading queries

A query is read from its tokens. Only the parts that concern streams are understood: the prologue,
the registration of an output stream, window declarations and window blocks. The rest of the body
is kept as it stands; whether it belongs to the base language is another question.
-/

namespace StreamQuery

open Text

namespace ParseError

/-- The next token is not the expected one. -/
def mismatch (expected : String) (tokens : List Token) : ParseError :=
  match tokens with
  | token :: _ => .unexpected expected token.text
  | [] => .unexpectedEnd expected

end ParseError

namespace QueryReader

/-- Reads one keyword. -/
def expectWord (keyword : String) : List Token → Except ParseError (List Token)
  | token :: rest =>
    if token.isWord keyword then .ok rest else .error (.unexpected keyword token.text)
  | [] => .error (.unexpectedEnd keyword)

/-- Reads one punctuation mark. -/
def expectPunct (mark : String) : List Token → Except ParseError (List Token)
  | token :: rest =>
    if token.isPunct mark then .ok rest else .error (.unexpected s!"'{mark}'" token.text)
  | [] => .error (.unexpectedEnd s!"'{mark}'")

/-- Reads a keyword that may be missing. -/
def skipWord (keyword : String) : List Token → List Token
  | token :: rest => if token.isWord keyword then rest else token :: rest
  | [] => []

/-- The term that a token names. -/
def resolve (prefixes : PrefixMapping) : Token → Except ParseError Term
  | .iri text => Term.ofIri text
  | .prefixed name =>
    match prefixes.expand? name with
    | some text => Term.ofIri text
    | none => .error (.undeclaredPrefix (String.ofList (splitFirst ':' name.toList).1))
  | .variable name => Term.ofVariable name
  | other => .error (.unexpected "IRI or variable" other.text)

/-- Reads the declarations in front of a query; a later one replaces an earlier one. -/
def readPrologue (prologue : Prologue) :
    List Token → Except ParseError (Prologue × List Token)
  | [] => .ok (prologue, [])
  | keyword :: rest =>
    if keyword.isWord "BASE" then
      match rest with
      | .iri text :: rest => readPrologue { prologue with base := some text } rest
      | rest => .error (.mismatch "base IRI" rest)
    else if keyword.isWord "PREFIX" then
      match rest with
      | .prefixed name :: rest' =>
        if name.toList.getLast? = some ':' then
          match rest' with
          | .iri space :: rest =>
            let label := String.ofList (trimRight ':' name.toList)
            readPrologue { prologue with prefixes := prologue.prefixes.insert label space } rest
          | rest => .error (.mismatch "namespace IRI" rest)
        else .error (.mismatch "prefix declaration" rest)
      | rest => .error (.mismatch "prefix declaration" rest)
    else .ok (prologue, keyword :: rest)

/-- Reads the word behind `REGISTER`: `STREAM` or the keyword of an operator. -/
def readRegistered : List Token → Except ParseError (OutputOperator × List Token)
  | .word word :: rest =>
    if sameLetters word "STREAM" then .ok (.unspecified, rest)
    else
      match OutputOperator.ofKeyword? word with
      | some operator => .ok (operator, rest)
      | none => .error (.mismatch "STREAM" (.word word :: rest))
  | tokens => .error (.mismatch "STREAM" tokens)

/-- Reads the name of an output stream. -/
def readOutput : List Token → Except ParseError (Token × List Token)
  | .iri text :: rest => .ok (.iri text, rest)
  | .prefixed name :: rest => .ok (.prefixed name, rest)
  | .variable name :: rest => .ok (.variable name, rest)
  | tokens => .error (.mismatch "output stream" tokens)

/-- Reads the registration of an output stream, if there is one. -/
def readRegister : List Token → Except ParseError (Option (Token × OutputOperator) × List Token)
  | [] => .ok (none, [])
  | keyword :: rest =>
    if keyword.isWord "REGISTER" then do
      let (operator, rest) ← readRegistered rest
      let (stream, rest) ← readOutput rest
      let rest ← expectWord "AS" rest
      return (some (stream, operator), rest)
    else .ok (none, keyword :: rest)

/-- Reads an output operator, if there is one. -/
def readOperator : List Token → OutputOperator × List Token
  | .word word :: rest =>
    match OutputOperator.ofKeyword? word with
    | some operator => (operator, rest)
    | none => (.unspecified, .word word :: rest)
  | tokens => (.unspecified, tokens)

/-- Whether a token qualifies the solutions of a query. -/
def isModifier (token : Token) : Bool := token.isWord "DISTINCT" || token.isWord "REDUCED"

/-- Reads the word that qualifies the solutions of a query, if there is one. -/
def readModifier : List Token → Option Token × List Token
  | token :: rest => if isModifier token then (some token, rest) else (none, token :: rest)
  | [] => (none, [])

/-- Whether a token ends the list of what a query answers with. -/
def endsResult (token : Token) : Bool :=
  token.isWord "FROM" || token.isWord "WHERE" || token.isPunct "\x7b"

/-- Reads up to the brace that closes a group; braces inside come in pairs. -/
def readBalanced (depth : Nat) : List Token → Except ParseError (List Token × List Token)
  | [] => .error (.unexpectedEnd "'\x7d'")
  | token :: rest =>
    if token.isPunct "\x7b" then do
      let (inner, rest) ← readBalanced (depth + 1) rest
      return (token :: inner, rest)
    else if token.isPunct "\x7d" then
      match depth with
      | 0 => .ok ([], rest)
      | depth + 1 => do
        let (inner, rest) ← readBalanced depth rest
        return (token :: inner, rest)
    else do
      let (inner, rest) ← readBalanced depth rest
      return (token :: inner, rest)

/-- Reads what a query answers with, and the operator that stands in it. -/
def readResult (tokens : List Token) :
    Except ParseError (ResultForm × OutputOperator × List Token) :=
  match tokens with
  | [] => .error (.unexpectedEnd "SELECT, CONSTRUCT, ASK or DESCRIBE")
  | keyword :: rest =>
    if keyword.isWord "SELECT" then
      let (operator, rest) := readOperator rest
      let (modifier, rest) := readModifier rest
      let projection := rest.takeWhile (!endsResult ·)
      let rest := rest.dropWhile (!endsResult ·)
      if projection.isEmpty then .error (.mismatch "projection" rest)
      else .ok (.select modifier projection, operator, rest)
    else if keyword.isWord "CONSTRUCT" then
      let (operator, rest) := readOperator rest
      match rest with
      | token :: others =>
        if token.isPunct "\x7b" then do
          let (template, rest) ← readBalanced 0 others
          return (.construct (some template), operator, rest)
        else .ok (.construct none, operator, rest)
      | [] => .ok (.construct none, operator, rest)
    else if keyword.isWord "ASK" then .ok (.ask, .unspecified, rest)
    else if keyword.isWord "DESCRIBE" then
      let targets := rest.takeWhile (!endsResult ·)
      let rest := rest.dropWhile (!endsResult ·)
      if targets.isEmpty then .error (.mismatch "DESCRIBE target" rest)
      else .ok (.describe targets, .unspecified, rest)
    else .error (.unexpected "SELECT, CONSTRUCT, ASK or DESCRIBE" keyword.text)

/-- What a slot of a window measures. -/
inductive Measure where
  | duration
  | count
  deriving DecidableEq

/-- The duration of a bare number in a slot, which counts milliseconds. -/
def millisTerm (slot digits : String) : Except ParseError Term :=
  match readCount? digits with
  | some n =>
    if h : n < Text.countLimit then .ok (Term.ofDuration (Duration.ofMillis n h))
    else .error (.invalidWindowValue slot digits)
  | none => .error (.invalidWindowValue slot digits)

/-- The count of a number in a slot. -/
def countTerm (slot digits : String) : Except ParseError Term :=
  match readCount? digits with
  | some n => .ok (Term.ofCount n)
  | none => .error (.invalidWindowValue slot digits)

/-- What stands between the quotes of a literal. -/
def unquoted (lexeme : String) : String :=
  let cs := lexeme.toList
  let width :=
    if (after? "\"\"\"".toList cs).isSome || (after? "'''".toList cs).isSome then 3 else 1
  String.ofList ((cs.take (cs.length - width)).drop width)

/-- The duration literal of a lexical form in a slot. -/
def durationTerm (lexical : String) : Except ParseError Term :=
  (Term.duration lexical).mapError .duration

/-- The text of a datatype IRI. -/
def datatypeText (prefixes : PrefixMapping) (token : Token) : Except ParseError String := do
  match ← resolve prefixes token with
  | .iri i => return i.text
  | other => throw (.unexpected "datatype IRI" other.text)

/-- Reads a datatype behind its mark, if there is one. -/
def readDatatype (prefixes : PrefixMapping) :
    List Token → Except ParseError (Option String × List Token)
  | .datatypeMark :: token :: rest => do return (some (← datatypeText prefixes token), rest)
  | [.datatypeMark] => .error (.unexpectedEnd "datatype")
  | tokens => .ok (none, tokens)

/-- Reads a literal in a slot: a quoted form, with or without the datatype of the slot. -/
def readQuoted (prefixes : PrefixMapping) (measure : Measure) (slot lexeme : String)
    (tokens : List Token) : Except ParseError (Term × List Token) := do
  let (datatype, tokens) ← readDatatype prefixes tokens
  let value := unquoted lexeme
  match measure with
  | .duration =>
    if datatype.all (· = Vocabulary.xsdDuration.text) then
      return (← durationTerm value, tokens)
    else throw (.invalidWindowValue slot lexeme)
  | .count =>
    if datatype.all (· = Vocabulary.xsdInteger.text) then
      return (← countTerm slot value, tokens)
    else throw (.invalidWindowValue slot lexeme)

/-- Reads the value of a slot. -/
def readSlot (prefixes : PrefixMapping) (measure : Measure) (slot : String) :
    List Token → Except ParseError (Term × List Token)
  | [] => .error (.unexpectedEnd s!"{slot} value")
  | token :: rest =>
    match token, measure with
    | .variable name, _ => do return (← Term.ofVariable name, rest)
    | .number digits, .duration => do return (← millisTerm slot digits, rest)
    | .number digits, .count => do return (← countTerm slot digits, rest)
    | .word word, .duration => do return (← durationTerm word, rest)
    | .literal lexeme, measure => readQuoted prefixes measure slot lexeme rest
    | other, _ => .error (.invalidWindowValue slot other.text)

/-- Reads the step of a window, if there is one. -/
def readStep (prefixes : PrefixMapping) (measure : Measure) :
    List Token → Except ParseError (Option Term × List Token)
  | [] => .ok (none, [])
  | token :: rest =>
    if token.isWord "STEP" then do
      let (step, rest) ← readSlot prefixes measure "STEP" rest
      return (some step, rest)
    else .ok (none, token :: rest)

/-- Reads a point in the past, `NOW-` and its distance; a variable may stand alone. The hyphen
and a number may form a single token. -/
def readPast (prefixes : PrefixMapping) (slot : String) (tokens : List Token) :
    Except ParseError (Term × List Token) :=
  match tokens with
  | .word word :: rest =>
    if sameLetters word "NOW" then
      match rest with
      | .number digits :: others =>
        match digits.toList with
        | '-' :: digits => do return (← millisTerm slot (String.ofList digits), others)
        | _ => .error (.mismatch "NOW-" rest)
      | token :: others =>
        if token.isPunct "-" then readSlot prefixes .duration slot others
        else .error (.mismatch "NOW-" rest)
      | [] => .error (.mismatch "NOW-" rest)
    else .error (.mismatch "NOW-" tokens)
  | .variable _ :: _ => readSlot prefixes .duration slot tokens
  | _ => .error (.mismatch "NOW-" tokens)

/-- Reads the frame of a window and its step. -/
def readFrame (prefixes : PrefixMapping) (tokens : List Token) :
    Except ParseError (Frame × Option Term × List Token) :=
  match tokens with
  | [] => .error (.mismatch "RANGE, ITEM or FROM" tokens)
  | keyword :: rest =>
    if keyword.isWord "RANGE" then do
      let (range, rest) ← readSlot prefixes .duration "RANGE" rest
      let (step, rest) ← readStep prefixes .duration rest
      return (.logical range, step, rest)
    else if keyword.isWord "ITEM" then do
      let (items, rest) ← readSlot prefixes .count "ITEM" rest
      let (step, rest) ← readStep prefixes .count rest
      return (.physical items, step, rest)
    else if keyword.isWord "FROM" then do
      let (start, rest) ← readPast prefixes "FROM" rest
      let rest ← expectWord "TO" rest
      let (stop, rest) ← readPast prefixes "TO" rest
      let (step, rest) ← readStep prefixes .duration rest
      return (.past start stop, step, rest)
    else .error (.mismatch "RANGE, ITEM or FROM" tokens)

/-- Reads a token that names a window or a stream. -/
def readName (prefixes : PrefixMapping) (expected : String) :
    List Token → Except ParseError (Term × List Token)
  | [] => .error (.unexpectedEnd expected)
  | token :: rest => do return (← resolve prefixes token, rest)

/-- Reads the declaration of a window, behind its keywords. -/
def readWindow (prefixes : PrefixMapping) (tokens : List Token) :
    Except ParseError (Window × List Token) := do
  let (id, tokens) ← readName prefixes "window name" tokens
  let tokens ← expectWord "ON" tokens
  let (stream, tokens) ← readName prefixes "stream name" (skipWord "STREAM" tokens)
  let tokens ← expectPunct "[" tokens
  let (frame, step, tokens) ← readFrame prefixes tokens
  let tokens ← expectPunct "]" tokens
  return (⟨id, stream, frame, step⟩, tokens)

/-- Reads a token that names a graph. -/
def readGraph : List Token → Except ParseError (Token × List Token)
  | .iri text :: rest => .ok (.iri text, rest)
  | .prefixed name :: rest => .ok (.prefixed name, rest)
  | tokens => .error (.mismatch "IRI" tokens)

/-- Reads one clause behind `FROM`: a graph, a named graph or a window. -/
def readFrom (prefixes : PrefixMapping) (tokens : List Token) :
    Except ParseError ((DatasetClause ⊕ Window) × List Token) :=
  match tokens with
  | named :: rest =>
    if named.isWord "NAMED" then
      match rest with
      | keyword :: others =>
        if keyword.isWord "WINDOW" then do
          let (window, rest) ← readWindow prefixes others
          return (.inr window, rest)
        else do
          let (graph, rest) ← readGraph rest
          return (.inl (.named graph), rest)
      | [] => .error (.mismatch "IRI" rest)
    else do
      let (graph, rest) ← readGraph tokens
      return (.inl (.default graph), rest)
  | [] => .error (.mismatch "IRI" tokens)

/-- Reads clauses behind `FROM` as long as there are any. The first argument bounds their number
and is at least the number of tokens. -/
def readSources (prefixes : PrefixMapping) :
    Nat → List Token → Except ParseError (List (DatasetClause ⊕ Window) × List Token)
  | bound + 1, keyword :: rest =>
    if keyword.isWord "FROM" then do
      let (clause, rest) ← readFrom prefixes rest
      let (clauses, rest) ← readSources prefixes bound rest
      return (clause :: clauses, rest)
    else .ok ([], keyword :: rest)
  | _, tokens => .ok ([], tokens)

/-- A group whose closing brace is still to come. -/
structure OpenGroup where
  /-- The window of the group, if it is a window block. -/
  window : Option Term
  members : Pattern

/-- A group that has just been opened. -/
def OpenGroup.start (window : Option Term) : OpenGroup := ⟨window, .nil⟩

/-- Adds a token to an open group. -/
def OpenGroup.push (group : OpenGroup) (token : Token) : OpenGroup :=
  { group with members := group.members.pushToken token }

/-- Closes a group inside another one. -/
def OpenGroup.attach (outer inner : OpenGroup) : OpenGroup :=
  let member := match inner.window with
    | some name => Pattern.window name inner.members .nil
    | none => Pattern.group inner.members .nil
  { outer with members := outer.members.append member }

/-- Reads the rest of a group that stands inside other open groups, up to the end of the
outermost. The word `WINDOW` opens a window block if a brace follows the token behind it. -/
def readGroup (prefixes : PrefixMapping) (group : OpenGroup) (outer : List OpenGroup) :
    List Token → Except ParseError (Pattern × List Token)
  | [] => .error (.unexpectedEnd "'\x7d'")
  | token :: rest =>
    if token.isPunct "\x7d" then
      match outer with
      | [] => .ok (group.members, rest)
      | parent :: outer => readGroup prefixes (parent.attach group) outer rest
    else if token.isPunct "\x7b" then readGroup prefixes (.start none) (group :: outer) rest
    else if token.isWord "WINDOW" then
      match rest with
      | name :: brace :: others =>
        if brace.isPunct "\x7b" then do
          let name ← resolve prefixes name
          readGroup prefixes (.start (some name)) (group :: outer) others
        else readGroup prefixes (group.push token) outer (name :: brace :: others)
      | [name] => readGroup prefixes (group.push token) outer [name]
      | [] => readGroup prefixes (group.push token) outer []
    else readGroup prefixes (group.push token) outer rest

/-- Reads the pattern of a query, if there is one, and tells whether `WHERE` stood in front. -/
def readPattern (prefixes : PrefixMapping) (tokens : List Token) :
    Except ParseError (Bool × Option Pattern × List Token) :=
  let rest := skipWord "WHERE" tokens
  let hasWhere := tokens.head?.any (·.isWord "WHERE")
  if hasWhere || rest.head?.any (·.isPunct "\x7b") then do
    let rest ← expectPunct "\x7b" rest
    let (pattern, rest) ← readGroup prefixes (.start none) [] rest
    return (hasWhere, some pattern, rest)
  else .ok (hasWhere, none, tokens)

/-- Whether a form of result can do without a pattern, or without the word in front of it. -/
def checkPattern (form : ResultForm) (hasWhere : Bool) (pattern : Option Pattern)
    (tokens : List Token) : Except ParseError Unit :=
  match form, pattern, hasWhere with
  | .describe _, none, _ => .ok ()
  | _, none, _ => .error (.mismatch "WHERE clause" tokens)
  | .construct none, some _, false => .error (.mismatch "WHERE" tokens)
  | _, some _, _ => .ok ()

/-- Declares the output stream that was registered, if there is one. An operator in the
registration counts more than one in the result. -/
def declareOutput (query : Query) (operator : OutputOperator) :
    Option (Token × OutputOperator) → Except ParseError Query
  | some (name, registered) => do
    let stream ← resolve query.prologue.prefixes name
    let operator := if registered = .unspecified then operator else registered
    return query.setOutputStream stream operator
  | none => .ok (query.setOutputOperator operator)

/-- Reads a whole query. -/
def readQuery (tokens : List Token) : Except ParseError Query := do
  let (prologue, tokens) ← readPrologue .empty tokens
  let (register, tokens) ← readRegister tokens
  let (prologue, tokens) ← readPrologue prologue tokens
  let (form, operator, tokens) ← readResult tokens
  let (sources, tokens) ← readSources prologue.prefixes tokens.length tokens
  let (hasWhere, pattern, tokens) ← readPattern prologue.prefixes tokens
  checkPattern form hasWhere pattern tokens
  let dataset := sources.filterMap Sum.getLeft?
  let windows := sources.filterMap Sum.getRight?
  let query := Query.ofBody prologue ⟨form, dataset, pattern, tokens⟩
  let query ← (query.addWindows windows).mapError .construction
  declareOutput query operator register

end QueryReader

namespace Query

/-- Reads a query without asking whether its body belongs to the base language. -/
def read (text : String) : Except ParseError Query := do
  let tokens ← (Token.read text).mapError .lexical
  QueryReader.readQuery tokens

end Query

end StreamQuery
