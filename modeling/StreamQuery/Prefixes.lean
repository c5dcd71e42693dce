import StreamQuery.SortedMap
import StreamQuery.Term

/-!
# Prefix mappings

Labels that stand for namespaces: expanding abbreviated names and abbreviating IRIs.
-/

namespace StreamQuery

open Text

/-- Namespaces by label. -/
abbrev PrefixMapping := SortedMap String

namespace PrefixMapping

/-- The vocabularies that a canonical graph is written in. -/
def standard : PrefixMapping :=
  SortedMap.ofList [
    ("rdf", "http://www.w3.org/1999/02/22-rdf-syntax-ns#"),
    ("rdfs", "http://www.w3.org/2000/01/rdf-schema#"),
    ("xsd", "http://www.w3.org/2001/XMLSchema#"),
    ("sp", "http://spinrdf.org/sp#"),
    ("spin", "http://spinrdf.org/spin#"),
    ("spl", "http://spinrdf.org/spl#"),
    ("arg", "http://spinrdf.org/arg#"),
    ("rsp", "http://w3id.org/rsp/spin#")]

/-- Both mappings together; where they differ, the second one counts. -/
def merge (mapping other : PrefixMapping) : PrefixMapping := mapping.insertAll other.entries

/-- Writes `label:local` out in full, if the label has a namespace. What looks like the scheme
and authority of an IRI is left alone. -/
def expand? (mapping : PrefixMapping) (name : String) : Option String :=
  match splitFirst ':' name.toList with
  | (label, some part) =>
    match part with
    | '/' :: '/' :: _ => none
    | _ => (mapping.get? (String.ofList label)).map (· ++ String.ofList part)
  | (_, none) => none

/-- A name written out in full where that is possible. -/
def expand (mapping : PrefixMapping) (name : String) : String := (mapping.expand? name).getD name

/-- Letters, digits, underscores and inner hyphens, which need no escape behind a label. -/
def isPlainLocal (part : List Char) : Bool :=
  part.all (fun c => c.isAlphanum || c == '_' || c == '-') && part.head? != some '-'

/-- The label and the rest of an IRI for every namespace that the IRI begins with. -/
def matching (mapping : PrefixMapping) (iri : String) : List (String × String × List Char) :=
  mapping.entries.filterMap fun (label, space) =>
    (after? space.toList iri.toList).map fun part => (label, space, part)

/-- The entry with the longest namespace; of equally long ones, the last. -/
def longest (found : List (String × String × List Char)) : Option (String × String × List Char) :=
  found.foldl (fun best entry =>
    match best with
    | some kept => if entry.2.1.length < kept.2.1.length then some kept else some entry
    | none => some entry) none

/-- Abbreviates an IRI by its longest namespace, if the rest is plain. -/
def abbreviate? (mapping : PrefixMapping) (iri : String) : Option String :=
  match longest (mapping.matching iri) with
  | some (label, _, part) =>
    if isPlainLocal part then some (label ++ ":" ++ String.ofList part) else none
  | none => none

end PrefixMapping

namespace Term

/-- The form of a term in a query; IRIs are abbreviated where the mapping allows it. -/
def queryText (mapping : PrefixMapping) : Term → String
  | .iri i => (mapping.abbreviate? i.text).getD i.bracketed
  | term => term.text

/-- The form of a term in the slot of a window, where a literal stands without its quotes. -/
def slotText (mapping : PrefixMapping) : Term → String
  | .literal l => l.value
  | term => term.queryText mapping

end Term

end StreamQuery
