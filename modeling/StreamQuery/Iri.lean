import StreamQuery.Text.CharClass
import StreamQuery.Text.Decimal
import StreamQuery.Text.Scan

/-!
# IRIs

The grammar of absolute IRIs, and their type. The delimiters are found first, each component is then
a string over one class of characters in which a percent sign opens an escaped byte.
-/

namespace StreamQuery

open Text

namespace IriGrammar

/-- The characters above ASCII that every component admits. -/
def isExtension (n : Nat) : Bool :=
  (0xA0 ≤ n && n ≤ 0xD7FF) || (0xF900 ≤ n && n ≤ 0xFDCF) || (0xFDF0 ≤ n && n ≤ 0xFFEF) ||
    (0x10000 ≤ n && n ≤ 0xDFFFF && n % 0x10000 ≤ 0xFFFD) || (0xE1000 ≤ n && n ≤ 0xEFFFD)

/-- The private characters that only a query admits. -/
def isPrivate (n : Nat) : Bool :=
  (0xE000 ≤ n && n ≤ 0xF8FF) || (0xF0000 ≤ n && n ≤ 0xFFFFD) || (0x100000 ≤ n && n ≤ 0x10FFFD)

/-- Characters without a meaning of their own. -/
def isUnreserved (c : Char) : Bool :=
  c.isAlphanum || c == '-' || c == '.' || c == '_' || c == '~' || isExtension c.toNat

/-- Characters that may delimit parts of a component. -/
def isSubDelimiter (c : Char) : Bool := "!$&'()*+,;=".toList.contains c

/-- The characters of a host name. -/
def isHostChar (c : Char) : Bool := isUnreserved c || isSubDelimiter c

/-- The characters of a path. -/
def isPathChar (c : Char) : Bool := isHostChar c || c == ':' || c == '@' || c == '/'

/-- The characters of a fragment. -/
def isFragmentChar (c : Char) : Bool := isPathChar c || c == '?'

/-- The characters of a query. -/
def isQueryChar (c : Char) : Bool := isFragmentChar c || isPrivate c.toNat

/-- A string over a class of characters, in which a percent sign precedes two hexadecimal
digits. -/
def isComponent (allowed : Char → Bool) : List Char → Bool
  | [] => true
  | '%' :: a :: b :: rest => isHexDigit a && isHexDigit b && isComponent allowed rest
  | c :: rest => allowed c && isComponent allowed rest

/-- A decimal byte without leading zeros. -/
def isByte (cs : List Char) : Bool :=
  cs ≠ [] && cs.length ≤ 3 && cs.all Char.isDigit && (cs.length == 1 || cs.head? != some '0') &&
    digitsValue cs ≤ 255

/-- An IPv4 address. -/
def isIpv4 (cs : List Char) : Bool :=
  let bytes := splitAll '.' cs
  bytes.length == 4 && bytes.all isByte

/-- A group of one to four hexadecimal digits. -/
def isHexGroup (cs : List Char) : Bool :=
  cs ≠ [] && cs.length ≤ 4 && cs.all isHexDigit

/-- How many groups a colon-separated list stands for; only its last member may be an IPv4
address, which counts for two. -/
def groupCount? : List (List Char) → Option Nat
  | [] => some 0
  | [last] => if isHexGroup last then some 1 else if isIpv4 last then some 2 else none
  | group :: groups =>
    if isHexGroup group then (groupCount? groups).map (· + 1) else none

/-- As `groupCount?`, for a text that may be empty. -/
def textGroupCount? (cs : List Char) : Option Nat :=
  if cs.isEmpty then some 0 else groupCount? (splitAll ':' cs)

/-- What stands before the first double colon, and what stands after it. -/
def splitDoubleColon : List Char → List Char × Option (List Char)
  | ':' :: ':' :: rest => ([], some rest)
  | [] => ([], none)
  | c :: rest => let (head, tail) := splitDoubleColon rest; (c :: head, tail)

/-- An IPv6 address: eight groups, or fewer around one double colon. -/
def isIpv6 (cs : List Char) : Bool :=
  match splitDoubleColon cs with
  | (_, none) => groupCount? (splitAll ':' cs) == some 8
  | (head, some tail) =>
    match textGroupCount? head, textGroupCount? tail with
    | some m, some n => !head.contains '.' && m + n ≤ 7
    | _, _ => false

/-- An address of a later version: its number after the letter `v`, a point, and any text. -/
def isIpFuture (cs : List Char) : Bool :=
  match cs with
  | v :: rest =>
    (v == 'v' || v == 'V') &&
      match splitFirst '.' rest with
      | (version, some address) =>
        version ≠ [] && version.all isHexDigit && address ≠ [] &&
          address.all fun c => (c.toNat < 128 && isHostChar c) || c == ':'
      | _ => false
  | [] => false

/-- What follows a host: nothing, or a colon and digits. -/
def isHostEnd : List Char → Bool
  | [] => true
  | c :: digits => c == ':' && digits.all Char.isDigit

/-- A host, with or without a colon and digits behind it. -/
def isHost (cs : List Char) : Bool :=
  match cs with
  | '[' :: rest =>
    match splitFirst ']' rest with
    | (address, some rest) => (isIpv6 address || isIpFuture address) && isHostEnd rest
    | _ => false
  | _ =>
    match splitFirst ':' cs with
    | (name, none) => isComponent isHostChar name
    | (name, some digits) => isComponent isHostChar name && digits.all Char.isDigit

/-- An authority: user information up to an at sign, if there is one, and a host. -/
def isAuthority (cs : List Char) : Bool :=
  match splitFirst '@' cs with
  | (_, none) => isHost cs
  | (user, some host) => isComponent (fun c => isHostChar c || c == ':') user && isHost host

/-- An authority with its path, or a path alone. -/
def isHierarchy : List Char → Bool
  | '/' :: '/' :: rest =>
    isAuthority (rest.takeWhile (· ≠ '/')) && isComponent isPathChar (rest.dropWhile (· ≠ '/'))
  | cs => isComponent isPathChar cs

/-- Everything that can follow a scheme. -/
def isAfterScheme (cs : List Char) : Bool :=
  let (body, fragment) := splitFirst '#' cs
  let (hierarchy, query) := splitFirst '?' body
  isHierarchy hierarchy && query.all (isComponent isQueryChar) &&
    fragment.all (isComponent isFragmentChar)

/-- What follows the scheme and its colon, if the text begins with a scheme. -/
def afterScheme? (cs : List Char) : Option (List Char) :=
  match splitFirst ':' cs with
  | (first :: others, some rest) =>
    if first.isAlpha && others.all fun c => c.isAlphanum || c == '+' || c == '-' || c == '.' then
      some rest
    else none
  | _ => none

/-- An absolute IRI. -/
def isAbsolute (cs : List Char) : Bool := (afterScheme? cs).any isAfterScheme

end IriGrammar

/-- An absolute IRI. -/
structure Iri where
  text : String
  absolute : IriGrammar.isAbsolute text.toList = true
  deriving DecidableEq

namespace Iri

/-- Checks that a text is an absolute IRI. -/
def ofString? (text : String) : Option Iri :=
  if h : IriGrammar.isAbsolute text.toList = true then some ⟨text, h⟩ else none

theorem ext_text {a b : Iri} (h : a.text = b.text) : a = b := by
  cases a; cases b; cases h; rfl

@[simp]
theorem ofString?_text (iri : Iri) : ofString? iri.text = some iri := by
  simp [ofString?, iri.absolute]

theorem text_of_ofString? {text : String} {iri : Iri} (h : ofString? text = some iri) :
    iri.text = text := by
  unfold ofString? at h
  split at h
  · cases h; rfl
  · cases h

/-- An IRI in angle brackets. -/
def bracketed (iri : Iri) : String := "<" ++ iri.text ++ ">"

end Iri

end StreamQuery
