import StreamQuery.Text.Scan

/-!
# Language tags

Well-formedness of language tags: subtags of at most eight letters and digits, in the order
language, extended languages, script, region, variants, extensions, private use.
-/

namespace StreamQuery.LanguageTag

open Text

/-- Tags that are registered although they do not follow the grammar. -/
def irregular : List String :=
  ["en-GB-oed", "i-ami", "i-bnn", "i-default", "i-enochian", "i-hak", "i-klingon", "i-lux",
    "i-mingo", "i-navajo", "i-pwn", "i-tao", "i-tay", "i-tsu", "sgn-BE-FR", "sgn-BE-NL",
    "sgn-CH-DE", "art-lojban", "cel-gaulish", "no-bok", "no-nyn", "zh-guoyu", "zh-hakka",
    "zh-min", "zh-min-nan", "zh-xiang"]

/-- How far into the order of subtags a tag has been read. -/
inductive Stage where
  | language
  | extended (count : Nat)
  | script
  | region
  | variants
  | extension (empty : Bool)
  | privateUse (empty : Bool)

/-- Whether another subtag must follow. -/
def Stage.isOpen : Stage → Bool
  | .language | .extension true | .privateUse true => true
  | _ => false

/-- A variant: five to eight characters, or four that begin with a digit. -/
def isVariant (subtag : List Char) : Bool :=
  5 ≤ subtag.length || (subtag.length == 4 && subtag.head?.any Char.isDigit)

/-- A region: two letters or three digits. -/
def isRegion (subtag : List Char) : Bool :=
  (subtag.length == 2 && subtag.all Char.isAlpha) ||
    (subtag.length == 3 && subtag.all Char.isDigit)

/-- Reads a subtag of letters and digits that follows the language. -/
def nextStage (stage : Stage) (subtag : List Char) : Option Stage :=
  match stage with
  | .language =>
    if 2 ≤ subtag.length && subtag.all Char.isAlpha then
      some (if subtag.length < 4 then .extended 0 else .script)
    else none
  | .privateUse _ => some (.privateUse false)
  | _ =>
    if subtag.length == 1 then
      match stage with
      | .extension true => none
      | _ => if subtag == ['x'] || subtag == ['X'] then some (.privateUse true)
             else some (.extension true)
    else
      match stage with
      | .extension _ => some (.extension false)
      | .extended count =>
        if subtag.length == 3 && subtag.all Char.isAlpha then
          if count < 3 then some (.extended (count + 1)) else none
        else if subtag.length == 4 && subtag.all Char.isAlpha then some .region
        else if isRegion subtag then some .variants
        else if isVariant subtag then some .variants else none
      | .script =>
        if subtag.length == 4 && subtag.all Char.isAlpha then some .region
        else if isRegion subtag then some .variants
        else if isVariant subtag then some .variants else none
      | .region =>
        if isRegion subtag then some .variants
        else if isVariant subtag then some .variants else none
      | _ => if isVariant subtag then some .variants else none

/-- Whether subtags can follow one another from a stage on. -/
def followsFrom (stage : Stage) : List (List Char) → Bool
  | [] => !stage.isOpen
  | subtag :: subtags =>
    subtag ≠ [] && subtag.length ≤ 8 && subtag.all Char.isAlphanum &&
      (nextStage stage subtag).any (followsFrom · subtags)

/-- Whether a text is a well-formed language tag. -/
def isWellFormed (tag : List Char) : Bool :=
  let lower := tag.map Char.toLower
  irregular.any (fun known => known.toList.map Char.toLower == lower) ||
    match lower with
    | 'x' :: '-' :: rest => followsFrom (.privateUse true) (splitAll '-' rest)
    | _ => followsFrom .language (splitAll '-' tag)

end StreamQuery.LanguageTag
