import StreamQuery.Proofs.Query.Name

/-! # The base query of query text

What remains of the tokens of query text without the parts that concern streams. The text is cut at
its declarations, behind its result, at its clauses and at its pattern, whatever the reader makes of
it; of window blocks the header is changed, and of keywords the case.
-/

namespace StreamQuery

open Token

/-- What is left of query text behind declarations. -/
def dropDeclarations : List Token → List Token
  | keyword :: .iri text :: rest =>
    if keyword.isWord "BASE" then dropDeclarations rest else keyword :: .iri text :: rest
  | keyword :: .prefixed name :: .iri space :: rest =>
    if keyword.isWord "PREFIX" then dropDeclarations rest
    else keyword :: .prefixed name :: .iri space :: rest
  | ts => ts

/-- What is left of query text behind the registration of an output stream. -/
def dropRegister : List Token → List Token
  | keyword :: rest =>
    if keyword.isWord "REGISTER" then (rest.dropWhile (!·.isWord "AS")).tail else keyword :: rest
  | [] => []

/-- Whether a token is the keyword of an operator. -/
def Token.isOperator (token : Token) : Bool := OutputOperator.named.any fun operator =>
  operator.keyword?.any fun word => token.isWord word

/-- Query text without an operator at its beginning. -/
def dropOperator : List Token → List Token
  | token :: rest => if token.isOperator then rest else token :: rest
  | [] => []

/-- Tokens up to the brace that closes a group, and what is left behind it. -/
def splitGroup (depth : Nat) : List Token → List Token × List Token
  | [] => ([], [])
  | token :: rest =>
    if token.isPunct "\x7b" then
      let (inner, rest) := splitGroup (depth + 1) rest
      (token :: inner, rest)
    else if token.isPunct "\x7d" then
      match depth with
      | 0 => ([token], rest)
      | depth + 1 =>
        let (inner, rest) := splitGroup depth rest
        (token :: inner, rest)
    else
      let (inner, rest) := splitGroup depth rest
      (token :: inner, rest)

/-- What a query answers with, without an operator and with its keyword in upper case, and what is
left of query text behind it. -/
def splitResult : List Token → List Token × List Token
  | [] => ([], [])
  | keyword :: rest =>
    if keyword.isWord "SELECT" then
      let rest := dropOperator rest
      (.word "SELECT" :: rest.takeWhile (!QueryReader.endsResult ·),
        rest.dropWhile (!QueryReader.endsResult ·))
    else if keyword.isWord "CONSTRUCT" then
      match dropOperator rest with
      | token :: others =>
        if token.isPunct "\x7b" then
          let (template, rest) := splitGroup 0 others
          (.word "CONSTRUCT" :: token :: template, rest)
        else ([.word "CONSTRUCT"], token :: others)
      | [] => ([.word "CONSTRUCT"], [])
    else if keyword.isWord "ASK" then ([.word "ASK"], rest)
    else
      (.word "DESCRIBE" :: rest.takeWhile (!QueryReader.endsResult ·),
        rest.dropWhile (!QueryReader.endsResult ·))

namespace QueryReader

/-- The name of a window block as it is written again. -/
def shortName (prefixes : PrefixMapping) (name : Token) : Token :=
  match resolve prefixes name with
  | .ok term => term.nameToken prefixes
  | .error _ => name

/-- A group and what follows it, with another keyword and abbreviated names in front of window
blocks. The depth counts the groups that are still open inside the outermost one. -/
def relabel (keyword : String) (prefixes : PrefixMapping) (depth : Nat) : List Token → List Token
  | [] => []
  | token :: rest =>
    if token.isPunct "\x7d" then
      match depth with
      | 0 => token :: rest
      | depth + 1 => token :: relabel keyword prefixes depth rest
    else if token.isPunct "\x7b" then token :: relabel keyword prefixes (depth + 1) rest
    else if token.isWord "WINDOW" then
      match rest with
      | name :: brace :: others =>
        if brace.isPunct "\x7b" then
          .word keyword :: shortName prefixes name :: brace ::
            relabel keyword prefixes (depth + 1) others
        else token :: relabel keyword prefixes depth (name :: brace :: others)
      | [name] => token :: relabel keyword prefixes depth [name]
      | [] => [token]
    else token :: relabel keyword prefixes depth rest

end QueryReader

/-- Query text from the pattern on, with `WHERE` in front of it and with window blocks as graphs. -/
def basePattern (prefixes : PrefixMapping) : List Token → List Token
  | [] => []
  | token :: rest =>
    if token.isWord "WHERE" then
      .word "WHERE" :: rest.head?.toList ++ QueryReader.relabel "GRAPH" prefixes 0 rest.tail
    else if token.isPunct "\x7b" then
      .word "WHERE" :: token :: QueryReader.relabel "GRAPH" prefixes 0 rest
    else token :: rest

/-- Query text from the clauses on, without window declarations and with the keywords of clauses in
upper case. A window declaration that has been entered ends with the next closing bracket. -/
def baseClauses (prefixes : PrefixMapping) (inWindow : Bool) : List Token → List Token
  | [] => []
  | token :: rest =>
    if inWindow then baseClauses prefixes (!token.isPunct "]") rest
    else if token.isWord "FROM" then
      match rest with
      | first :: second :: others =>
        if first.isWord "NAMED" then
          if second.isWord "WINDOW" then baseClauses prefixes true others
          else .word "FROM" :: .word "NAMED" :: second :: baseClauses prefixes false others
        else .word "FROM" :: first :: baseClauses prefixes false (second :: others)
      | [graph] => [.word "FROM", graph]
      | [] => [.word "FROM"]
    else basePattern prefixes (token :: rest)

/-- The tokens of the base query of query text, without its declarations: registration, operator
and window declarations are left out, and window blocks are graphs. -/
def baseTokens (prefixes : PrefixMapping) (ts : List Token) : List Token :=
  let (result, rest) := splitResult (dropDeclarations (dropRegister (dropDeclarations ts)))
  result ++ baseClauses prefixes false rest

end StreamQuery
