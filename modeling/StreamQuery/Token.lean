import StreamQuery.Text.CharClass

/-!
# Tokens

The words of query text. A query body is kept as tokens, so that triple patterns and expressions
pass through untouched.
-/

namespace StreamQuery

/-- A word of query text. -/
inductive Token where
  /-- An IRI, without its angle brackets. -/
  | iri (text : String)
  | prefixed (text : String)
  /-- A variable, without its sigil. -/
  | variable (name : String)
  /-- A string literal with its quotes and escapes. -/
  | literal (text : String)
  /-- A language tag with its at sign. -/
  | language (text : String)
  | datatypeMark
  | number (text : String)
  | blank (text : String)
  | word (text : String)
  | punct (text : String)
  deriving DecidableEq, Repr

namespace Token

/-- The text that a token is written as. -/
def text : Token → String
  | .iri text => "<" ++ text ++ ">"
  | .variable name => "?" ++ name
  | .datatypeMark => "^^"
  | .prefixed text | .literal text | .language text | .number text | .blank text | .word text
  | .punct text => text

/-- Whether a token is a given keyword, in any case. -/
def isWord (keyword : String) : Token → Bool
  | .word text => Text.sameLetters text keyword
  | _ => false

/-- Whether a token is a given punctuation mark. -/
def isPunct (mark : String) : Token → Bool
  | .punct text => text == mark
  | _ => false

/-- The name of a variable token. -/
def variableName? : Token → Option String
  | .variable name => some name
  | _ => none

/-- Whether two tokens belong together without a space, as in `"x"@en`, `"1"^^t` and `NOW-PT1M`.
The hyphen of the last form joins what stands on both sides of it, so the token before it counts
too. -/
def isJoined (beforeLast last : Option Token) (next : Token) : Bool :=
  match last with
  | none => true
  | some last =>
    match next with
    | .language _ | .datatypeMark => true
    | _ =>
      last == .datatypeMark || (next.isPunct "-" && last.isWord "NOW") ||
        (last.isPunct "-" && beforeLast.any (·.isWord "NOW"))

/-- The text of tokens that follow two given ones. -/
def joinAfter (beforeLast last : Option Token) : List Token → List Char
  | [] => []
  | token :: tokens =>
    (if isJoined beforeLast last token then [] else [' ']) ++ token.text.toList ++
      joinAfter last (some token) tokens

/-- Tokens as one line of text: a space between two tokens that do not belong together. -/
def join (tokens : List Token) : String := String.ofList (joinAfter none none tokens)

end Token

end StreamQuery
