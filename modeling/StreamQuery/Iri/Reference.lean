import StreamQuery.Iri

/-!
# IRI references

References that a base makes absolute: the base gives the parts that the reference lacks in front,
and the segments of one and of two dots are taken out of the path.
-/

namespace StreamQuery.IriGrammar

open Text

/-- An IRI or a reference to one, cut at its delimiters. -/
structure Parts where
  scheme : Option (List Char)
  authority : Option (List Char)
  path : List Char
  query : Option (List Char)
  fragment : Option (List Char)

namespace Parts

/-- The parts of a text. -/
def ofText (cs : List Char) : Parts :=
  let (scheme, rest) := match afterScheme? cs with
    | some rest => (some (cs.take (cs.length - rest.length - 1)), rest)
    | none => (none, cs)
  let (body, fragment) := splitFirst '#' rest
  let (hierarchy, query) := splitFirst '?' body
  match hierarchy with
  | '/' :: '/' :: rest =>
    ⟨scheme, some (rest.takeWhile (· ≠ '/')), rest.dropWhile (· ≠ '/'), query, fragment⟩
  | path => ⟨scheme, none, path, query, fragment⟩

/-- The text of some parts. -/
def text (parts : Parts) : List Char :=
  let scheme := match parts.scheme with
    | some scheme => scheme ++ [':']
    | none => []
  let authority := match parts.authority with
    | some authority => '/' :: '/' :: authority
    | none => []
  let part (mark : Char) : Option (List Char) → List Char
    | some text => mark :: text
    | none => []
  scheme ++ authority ++ parts.path ++ part '?' parts.query ++ part '#' parts.fragment

end Parts

/-- Segments of a path behind those before it, the last one first. One dot stands for the same
level and two dots for the level above; below an authority there is none above the first. -/
def foldSegments (rooted : Bool) (earlier : List (List Char)) :
    List (List Char) → List (List Char)
  | [] => earlier.reverse
  | segment :: segments =>
    let above := match earlier with
      | [root] => if rooted then [root] else []
      | earlier => earlier.drop 1
    let kept := if segment = ['.'] then some earlier
      else if segment = ['.', '.'] then some above
      else none
    match kept, segments with
    | some kept, [] => foldSegments rooted ([] :: kept) []
    | some kept, segments => foldSegments rooted kept segments
    | none, segments => foldSegments rooted (segment :: earlier) segments

/-- A path without segments of dots, given whether there is an authority before it. -/
def withoutDots (rooted : Bool) (path : List Char) : List Char :=
  ['/'].intercalate (foldSegments rooted [] (splitAll '/' path))

/-- The path of a reference from the level of a base. -/
def pathFrom (base : Parts) (path : List Char) : List Char :=
  if base.authority.isSome ∧ base.path = [] then '/' :: path
  else (base.path.reverse.dropWhile (· ≠ '/')).reverse ++ path

/-- The parts that a reference refers to. -/
def Parts.resolve (base reference : Parts) : Parts :=
  let clean (parts : Parts) : Parts :=
    { parts with path := withoutDots parts.authority.isSome parts.path }
  if reference.scheme.isSome then clean reference
  else if reference.authority.isSome then clean { reference with scheme := base.scheme }
  else
    let reference := { reference with scheme := base.scheme, authority := base.authority }
    match reference.path with
    | [] => { reference with path := base.path, query := reference.query <|> base.query }
    | '/' :: _ => clean reference
    | path => clean { reference with path := pathFrom base path }

/-- Whether a text is a reference. The first segment of one that lacks a scheme holds no colon. -/
def isReference (cs : List Char) : Bool :=
  match afterScheme? cs with
  | some rest => isAfterScheme rest
  | none =>
    isAfterScheme cs &&
      !(cs.takeWhile fun c => c != '/' && c != '?' && c != '#').contains ':'

/-- The absolute IRI that a reference refers to. Without a base, the reference is absolute and stays
as it is. No path without an authority may begin like one. -/
def resolve? (base : Option (List Char)) (reference : List Char) : Option (List Char) :=
  match base with
  | none => if isAbsolute reference then some reference else none
  | some base =>
    if isReference reference then
      let parts := Parts.resolve (.ofText base) (.ofText reference)
      match parts.authority, parts.path with
      | none, '/' :: '/' :: _ => none
      | _, _ => some parts.text
    else none

end StreamQuery.IriGrammar
