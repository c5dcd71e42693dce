import StreamQuery.Text.CharClass
import StreamQuery.Text.Scan

/-!
# Regular expressions

Which texts are regular expressions that a finite automaton can match against. The texts hold no
equals sign, comma or closing brace, so that a brace never repeats anything. An automaton that
reads bytes one by one does not know where words of the whole character standard begin and end,
and it accepts nothing that could cut a character into its bytes.
-/

namespace StreamQuery.Regex

open Text

/-- What a regular expression switches on or off for what follows. -/
structure Flags where
  /-- Blanks and comments do not count. -/
  spaced : Bool
  /-- Letters match in either case. -/
  anyCase : Bool
  /-- Classes are those of the whole character standard. -/
  unicode : Bool

/-- Flags with one of them, named by its letter, on or off. -/
def Flags.set (flags : Flags) (letter : Char) (value : Bool) : Flags :=
  match letter with
  | 'x' => { flags with spaced := value }
  | 'i' => { flags with anyCase := value }
  | 'u' => { flags with unicode := value }
  | _ => flags

/-- What is left of a text and what is known from its front. -/
structure Progress where
  rest : List Char
  flags : Flags
  /-- The names of groups. -/
  names : List String

/-- A reader of part of a text. -/
abbrev Reader := StateT Progress Option

/-- Succeeds on a condition. -/
def require (condition : Bool) : Reader Unit := if condition then pure () else failure

/-- A text without the blanks and comments at its front. -/
def withoutGaps (inComment : Bool) : List Char → List Char
  | [] => []
  | c :: cs =>
    if inComment then withoutGaps (c != '\n') cs
    else if isBlank c then withoutGaps false cs
    else if c == '#' then withoutGaps true cs
    else c :: cs

/-- Takes blanks and comments, where they do not count. -/
def gaps : Reader Unit :=
  modify fun state =>
    if state.flags.spaced then { state with rest := withoutGaps false state.rest } else state

/-- What is left of the text. -/
def remaining : Reader (List Char) := return (← get).rest

/-- Goes on behind the front of the text. -/
def goOn (rest : List Char) : Reader Unit := modify fun state => { state with rest := rest }

/-- Takes one character. -/
def next : Reader Char := do
  match ← remaining with
  | c :: rest =>
    goOn rest
    return c
  | [] => failure

/-! ## Single characters and escapes -/

/-- What one character or one escape stands for. -/
inductive Piece where
  /-- A character; it may be written as a byte, by two digits. -/
  | literal (c : Char) (byte : Bool)
  /-- Digits, blanks or characters of words, or all but these. -/
  | common (negated : Bool)
  /-- A property of characters. -/
  | property
  /-- A place where a word begins or ends, or none of both. -/
  | wordEdge
  /-- Any other place in the text. -/
  | place

/-- Reads so many hexadecimal digits. -/
def hexDigits : Nat → Reader (List Char)
  | 0 => pure []
  | count + 1 => do
    gaps
    let digit ← next
    require (isHexDigit digit)
    return digit :: (← hexDigits count)

/-- Reads the code of a character. -/
def code (count : Nat) : Reader Char := do
  match charOfCode? (hexDigitsValue (← hexDigits count)) with
  | some c =>
    gaps
    return c
  | none => failure

/-- The character that an escaped letter stands for. -/
def controlChar (letter : Char) : Char :=
  match letter with
  | 'a' => '\x07'
  | 'f' => '\x0C'
  | 'n' => '\n'
  | 'r' => '\r'
  | 't' => '\t'
  | _ => '\x0B'

/-- Reads an escape behind its backslash. Letters and digits without a meaning are refused. -/
def escape : Reader Piece := do
  let c ← next
  if c == 'x' then return .literal (← code 2) true
  else if c == 'u' then return .literal (← code 4) false
  else if c == 'U' then return .literal (← code 8) false
  else if c == 'p' || c == 'P' then
    gaps
    let category ← next
    gaps
    require ("clmnpsz".toList.contains category.toLower)
    return .property
  else if "dsw".toList.contains c then return .common false
  else if "DSW".toList.contains c then return .common true
  else if "afnrtv".toList.contains c then return .literal (controlChar c) false
  else if c == 'A' || c == 'z' then return .place
  else if "bB<>".toList.contains c then return .wordEdge
  else
    require (c.toNat < 128 && !c.isAlphanum)
    return .literal c false

/-- Checks that a piece can stand by itself. -/
def Piece.check (piece : Piece) : Reader Unit := do
  let flags := (← get).flags
  require <| match piece with
    | .literal c byte => flags.unicode || c.toNat < 128 || (!byte && !flags.anyCase)
    | .common negated => flags.unicode || !negated
    | .property => flags.unicode
    | .wordEdge => !flags.unicode
    | .place => true

/-! ## Classes -/

/-- Part of a class. -/
structure ClassPart where
  /-- How deep its parts are nested. -/
  depth : Nat
  /-- Whether it has the bytes above ASCII. -/
  high : Bool

/-- A part without parts. -/
def ClassPart.simple : ClassPart := ⟨0, false⟩

/-- One more than the deepest of some levels. -/
def above (levels : List Nat) : Nat := levels.foldl max 0 + 1

/-- Parts side by side. -/
def ClassPart.union (parts : List ClassPart) : ClassPart :=
  match parts with
  | [part] => part
  | [] => .simple
  | parts => ⟨above (parts.map ClassPart.depth), parts.any ClassPart.high⟩

/-- What stands before an operator of classes, and how the operator treats a byte by whether either
side has it. -/
abbrev Pending := Option (ClassPart × (Bool → Bool → Bool))

/-- The parts behind an operator joined with what stands before it. -/
def operand (pending : Pending) (parts : List ClassPart) : ClassPart :=
  let right := ClassPart.union parts
  match pending with
  | none => right
  | some (left, operator) =>
    ⟨above [left.depth, right.depth], operator left.high right.high⟩

/-- Checks that a piece can stand in a class. -/
def Piece.checkInClass (piece : Piece) : Reader Unit := do
  let unicode := (← get).flags.unicode
  require <| match piece with
    | .literal c _ => unicode || c.toNat < 128
    | .common negated => unicode || !negated
    | .property => unicode
    | _ => false

/-- Reads a character or an escape of a class. -/
def classPiece : Reader Piece := do
  let c ← next
  if c == '\\' then escape else return .literal c false

/-- The first character behind blanks and a mark of a comment. -/
def peek? (spaced : Bool) (cs : List Char) : Option Char :=
  if spaced then
    match cs.dropWhile isBlank with
    | '#' :: cs => (cs.dropWhile isBlank).head?
    | cs => cs.head?
  else cs.head?

/-- Reads a character or an escape of a class, or a range of characters. -/
def classRange : Reader ClassPart := do
  let first ← classPiece
  first.checkInClass
  gaps
  match ← remaining with
  | '-' :: rest =>
    let behind := peek? (← get).flags.spaced rest
    if behind == some ']' || behind == some '-' then return .simple
    else
      goOn rest
      gaps
      let last ← classPiece
      last.checkInClass
      match first, last with
      | .literal a _, .literal b _ =>
        require (a ≤ b)
        return .simple
      | _, _ => failure
  | _ => return .simple

/-- The names of classes in double brackets. -/
def classNames : List String :=
  ["alnum", "alpha", "ascii", "blank", "cntrl", "digit", "graph", "lower", "print", "punct",
    "space", "upper", "word", "xdigit"]

/-- Whether a named class behind its bracket is negated, and what follows it. -/
def namedClass? : List Char → Option (Bool × List Char)
  | ':' :: cs =>
    let (negated, cs) := match cs with
      | '^' :: cs => (true, cs)
      | cs => (false, cs)
    match splitFirst ':' cs with
    | (name, some (']' :: rest)) =>
      if classNames.contains (String.ofList name) then some (negated, rest) else none
    | _ => none
  | _ => none

/-- Reads the hyphens at the front of a class, at most so many. -/
def hyphens : Nat → Reader (List ClassPart)
  | 0 => pure []
  | bound + 1 => do
    match ← remaining with
    | '-' :: rest =>
      goOn rest
      gaps
      return .simple :: (← hyphens bound)
    | _ => return []

/-- Reads what has a meaning of its own at the front of a class: a caret, hyphens, and a bracket
that does not close it. Answers whether there is a caret, and the parts. -/
def classFront : Reader (Bool × List ClassPart) := do
  gaps
  let negated ← match ← remaining with
    | '^' :: rest => do
      goOn rest
      gaps
      pure true
    | _ => pure false
  let parts ← hyphens (← remaining).length
  match parts, ← remaining with
  | [], ']' :: rest =>
    goOn rest
    gaps
    return (negated, [.simple])
  | parts, _ => return (negated, parts)

/-- Reads a class behind its front up to its end. The first argument bounds the number of steps,
here and below. -/
def classBody : Nat → Bool → Pending → List ClassPart → Reader ClassPart
  | 0, _, _, _ => failure
  | bound + 1, negated, pending, parts => do
    gaps
    match ← remaining with
    | '[' :: rest =>
      match namedClass? rest with
      | some (high, rest) =>
        goOn rest
        classBody bound negated pending (⟨0, high⟩ :: parts)
      | none =>
        goOn rest
        let (innerNegated, front) ← classFront
        let inner ← classBody bound innerNegated none front
        classBody bound negated pending (inner :: parts)
    | ']' :: rest =>
      goOn rest
      let whole := operand pending parts
      require ((← get).flags.unicode || whole.high == negated)
      return ⟨whole.depth + 1, false⟩
    | '&' :: '&' :: rest =>
      goOn rest
      classBody bound negated (some (operand pending parts, fun a b => a && b)) []
    | '-' :: '-' :: rest =>
      goOn rest
      classBody bound negated (some (operand pending parts, fun a b => a && !b)) []
    | '~' :: '~' :: rest =>
      goOn rest
      classBody bound negated (some (operand pending parts, fun a b => a != b)) []
    | _ => do
      let part ← classRange
      classBody bound negated pending (part :: parts)

/-! ## Groups and repetitions -/

/-- One item of a sequence. -/
structure Item where
  /-- How deep its parts are nested. -/
  depth : Nat
  repeatable : Bool

/-- How deep a sequence is nested. -/
def sequenceDepth (items : List Item) : Nat :=
  match items with
  | [] => 0
  | [item] => item.depth
  | items => above (items.map Item.depth)

/-- How deep alternatives are nested, given those before the last one. -/
def choiceDepth (earlier : List Nat) (last : Nat) : Nat :=
  match earlier with
  | [] => last
  | earlier => above (last :: earlier)

/-- Reads flags up to the sign behind them. No flag and no hyphen comes twice, and a flag follows
the hyphen. -/
def flagsFront (seen : List Char) (flags : Flags) :
    List Char → Option (List Char × Flags × List Char)
  | [] => none
  | c :: cs =>
    if c == ':' || c == ')' then
      if seen.head? == some '-' then none else some (seen, flags, c :: cs)
    else if seen.contains c then none
    else if c == '-' then flagsFront ('-' :: seen) flags cs
    else if "imsUuRx".toList.contains c then
      flagsFront (c :: seen) (flags.set c (!seen.contains '-')) cs
    else none

/-- Whether a text is the name of a group. -/
def isGroupName : List Char → Bool
  | [] => false
  | c :: cs =>
    (c == '_' || isAlphabetic c) &&
      cs.all fun c => c == '_' || c == '.' || c == '[' || c == ']' || isAlphanumeric c

/-- Reads the name of a group, which is new, up to its end. -/
def groupName (cs : List Char) : Reader Unit := do
  match splitFirst '>' cs with
  | (name, some rest) =>
    let state ← get
    require (isGroupName name && !state.names.contains (String.ofList name))
    set { state with rest := rest, names := String.ofList name :: state.names }
  | (_, none) => failure

/-- Reads what stands at the front of a group behind its bracket, and answers whether there is a
group and not only flags. -/
def groupFront : Reader Bool := do
  gaps
  match ← remaining with
  | '?' :: 'P' :: '<' :: rest | '?' :: '<' :: rest =>
    groupName rest
    return true
  | '?' :: rest =>
    match flagsFront [] (← get).flags rest with
    | some (seen, flags, mark :: rest) =>
      require (mark == ':' || !seen.isEmpty)
      modify fun state => { state with rest := rest, flags := flags }
      return mark == ':'
    | _ => failure
  | _ => return true

/-- Reads alternatives up to the end of their group, given those before and the items before, the
last one first, and answers how deep they are nested. -/
def alternatives : Nat → List Nat → List Item → Reader Nat
  | 0, _, _ => failure
  | bound + 1, earlier, items => do
    gaps
    match ← remaining with
    | [] | ')' :: _ => return choiceDepth earlier (sequenceDepth items)
    | '|' :: rest =>
      goOn rest
      alternatives bound (sequenceDepth items :: earlier) []
    | '(' :: rest =>
      goOn rest
      let outer := (← get).flags
      if ← groupFront then
        let depth ← alternatives bound [] []
        match ← remaining with
        | ')' :: rest =>
          modify fun state => { state with rest := rest, flags := outer }
          alternatives bound earlier (⟨depth + 1, true⟩ :: items)
        | _ => failure
      else alternatives bound earlier (⟨0, false⟩ :: items)
    | '[' :: rest =>
      goOn rest
      let (negated, front) ← classFront
      let part ← classBody bound negated none front
      alternatives bound earlier (⟨part.depth, true⟩ :: items)
    | c :: rest =>
      goOn rest
      if c == '*' || c == '+' || c == '?' then
        match items with
        | ⟨depth, true⟩ :: items =>
          match rest with
          | '?' :: rest => goOn rest
          | _ => pure ()
          alternatives bound earlier (⟨depth + 1, true⟩ :: items)
        | _ => failure
      else if c == '\x7b' then failure
      else
        if c == '\\' then (← escape).check
        else if c == '.' then require (← get).flags.unicode
        else if c != '^' && c != '$' then (Piece.literal c false).check
        alternatives bound earlier (⟨0, true⟩ :: items)

/-- How deep the parts of a regular expression may be nested. -/
def deepest : Nat := 250

/-- Whether a text is a regular expression that an automaton can match against. -/
def isValid (text : List Char) : Bool :=
  match (alternatives (text.length + 1) [] []).run ⟨text, ⟨false, false, true⟩, []⟩ with
  | some (depth, state) => state.rest.isEmpty && depth ≤ deepest
  | none => false

end StreamQuery.Regex
