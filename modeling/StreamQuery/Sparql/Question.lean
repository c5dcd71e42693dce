import StreamQuery.Sparql.Query

/-!
# Questions of the base language

Questions that are nothing but triple patterns, read so that a graph can answer them.
-/

namespace StreamQuery.Sparql

open Recognizer

/-- Triple patterns, and which of the ways to match them count. -/
structure Question where
  patterns : List TriplePattern
  most : Option Nat
  skipped : Nat

namespace Question

/-- A question, with at most so many levels of brackets. The order of its solutions does not
count. -/
def recognizer (depth : Nat) : Recognizer Question := do
  spaces
  word "ask"
  discard <| maybe (word "where")
  let patterns ← bareTriples true depth
  ordering (discard (groupPattern depth depth)) depth
  let (most, skipped) ← limits
  return ⟨patterns, most, skipped⟩

/-- Reads a question. -/
def ofText? (text : String) : Option Question := readAll? (recognizer (text.length + 1)) text

/-- Whether enough ways to match the patterns are left. -/
def holdsIn (question : Question) (graph : Graph) : Bool :=
  question.skipped < (graph.solutions question.patterns).length && question.most != some 0

end Question

end StreamQuery.Sparql
