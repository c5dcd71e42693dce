import StreamQuery.SortedMap
import StreamQuery.Term
import StreamQuery.Token

/-!
# Group patterns

The inside of a pair of braces: runs of tokens, nested groups and the blocks that range over a
window. A run holds triples, filters, keywords and expressions as they stand.
-/

namespace StreamQuery

/-- The members of a group, in order. -/
inductive Pattern where
  | nil
  | run (tokens : List Token) (rest : Pattern)
  | group (inner rest : Pattern)
  | window (name : Term) (inner rest : Pattern)
  deriving DecidableEq

namespace Pattern

/-- One group after another. -/
def append : Pattern → Pattern → Pattern
  | nil, other => other
  | run tokens rest, other => run tokens (rest.append other)
  | group inner rest, other => group inner (rest.append other)
  | window name inner rest, other => window name inner (rest.append other)

/-- A group with one more token at its end, in the last run if the group ends in a run. -/
def pushToken (token : Token) : Pattern → Pattern
  | nil => run [token] nil
  | run tokens nil => run (tokens ++ [token]) nil
  | run tokens rest => run tokens (rest.pushToken token)
  | group inner rest => group inner (rest.pushToken token)
  | window name inner rest => window name inner (rest.pushToken token)

/-- Whether a group has no members. -/
def isEmpty : Pattern → Bool
  | nil => true
  | _ => false

/-- The names of all variables, in order of appearance and with repetitions; the name of a window
counts as part of its block. -/
def variableOccurrences : Pattern → List String
  | nil => []
  | run tokens rest => tokens.filterMap Token.variableName? ++ rest.variableOccurrences
  | group inner rest => inner.variableOccurrences ++ rest.variableOccurrences
  | window name inner rest =>
    name.variableName?.toList ++ inner.variableOccurrences ++ rest.variableOccurrences

/-- The names of all variables, in ascending order. -/
def variableNames (pattern : Pattern) : List String := sortedNames pattern.variableOccurrences

/-- The window blocks with their patterns, in order of appearance. -/
def windowBlocks : Pattern → List (Term × Pattern)
  | nil => []
  | run _ rest => rest.windowBlocks
  | group inner rest => inner.windowBlocks ++ rest.windowBlocks
  | window name inner rest => (name, inner) :: inner.windowBlocks ++ rest.windowBlocks

/-- The names of the window blocks, in order of appearance. -/
def windowNames (pattern : Pattern) : List Term := pattern.windowBlocks.map Prod.fst

/-- Words that may appear inside a basic triple pattern. -/
def tripleWords : List String := ["a", "true", "false"]

/-- The words of a pattern in upper case, in order of appearance and with repetitions. Words of
basic triple patterns are left out; a window block counts as a keyword. -/
def keywordOccurrences : Pattern → List String
  | nil => []
  | run tokens rest =>
    tokens.filterMap (fun
      | .word word =>
        if tripleWords.any (Text.sameLetters word) then none
        else some (String.ofList (word.toList.map Char.toUpper))
      | _ => none) ++ rest.keywordOccurrences
  | group inner rest => inner.keywordOccurrences ++ rest.keywordOccurrences
  | window _ inner rest => "WINDOW" :: inner.keywordOccurrences ++ rest.keywordOccurrences

/-- The words that show that a pattern is more than triples, each once. -/
def keywords (pattern : Pattern) : List String :=
  pattern.keywordOccurrences.foldl (fun kept word =>
    if kept.contains word then kept else kept ++ [word]) []

/-- Every token of the runs replaced by another. -/
def mapTokens (f : Token → Token) : Pattern → Pattern
  | nil => nil
  | run tokens rest => run (tokens.map f) (rest.mapTokens f)
  | group inner rest => group (inner.mapTokens f) (rest.mapTokens f)
  | window name inner rest => window name (inner.mapTokens f) (rest.mapTokens f)

end Pattern

end StreamQuery
