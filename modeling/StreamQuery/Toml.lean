/-!
# TOML

The values of TOML, and how a document grows. A document is a tree of tables: a header opens one
of them, a line sets a key, which may be dotted, in the table that is open. What a table was made
by decides what may be added to it later.
-/

namespace StreamQuery

/-- What a table was made by. -/
inductive TableOrigin where
  /-- The header of a table below it. -/
  | implied
  /-- A dotted key that runs through it. -/
  | dotted
  /-- Its own header. -/
  | header
  /-- A value in braces. -/
  | inline
  deriving DecidableEq

/-- A TOML value. -/
inductive Toml where
  | string (text : String)
  | bool (value : Bool)
  /-- An integer or a floating-point number. -/
  | number
  /-- A date, a time or both. -/
  | moment (text : String)
  | array (items : List Toml)
  | table (origin : TableOrigin) (entries : List (String × Toml))
  /-- The tables under a doubly bracketed header, of which the last one is open. -/
  | sections (earlier : List (List (String × Toml))) (last : List (String × Toml))

namespace Toml

/-- The entries of a table, each key once. -/
abbrev Entries := List (String × Toml)

/-- Entries with a new value at a key. -/
def put (entries : Entries) (key : String) (value : Toml) : Entries :=
  match entries with
  | [] => [(key, value)]
  | entry :: rest => if entry.1 = key then (key, value) :: rest else entry :: put rest key value

/-- Changes the table below a table at some keys. Tables on the way that are missing are made by
the keys of a line or by those of a header. No way leads through a table in braces, and the keys
of a line do not lead through a table that has a header of its own. -/
def change (byLine : Bool) (act : TableOrigin → Entries → Option Entries) :
    List String → TableOrigin → Entries → Option Entries
  | [], origin, entries => act origin entries
  | key :: keys, _, entries => do
    let value ← match entries.lookup key with
      | none =>
        let origin := if byLine then TableOrigin.dotted else .implied
        pure (.table origin (← change byLine act keys origin []))
      | some (.table origin inner) =>
        if origin = .inline ∨ byLine ∧ origin = .header then none
        else pure (.table origin (← change byLine act keys origin inner))
      | some (.sections earlier last) =>
        pure (.sections earlier (← change byLine act keys .header last))
      | some _ => none
    return put entries key value

/-- Sets a key that has no value yet. Under a dotted key, all but its last part name tables that
only dotted keys have made. -/
def set (entries : Entries) (path : List String) (key : String) (value : Toml) : Option Entries :=
  change true
    (fun origin entries =>
      if (origin = .dotted) = (path = []) then none
      else if (entries.lookup key).isSome then none
      else some (put entries key value))
    path .header entries

/-- Opens a table by its header. -/
def openTable (entries : Entries) (path : List String) (key : String) : Option Entries :=
  change false
    (fun _ entries => match entries.lookup key with
      | none => some (put entries key (.table .header []))
      | some (.table .implied inner) => some (put entries key (.table .header inner))
      | some _ => none)
    path .header entries

/-- Opens one more table by a doubly bracketed header. -/
def openSection (entries : Entries) (path : List String) (key : String) : Option Entries :=
  change false
    (fun _ entries => match entries.lookup key with
      | none => some (put entries key (.sections [] []))
      | some (.sections earlier last) => some (put entries key (.sections (earlier ++ [last]) []))
      | some _ => none)
    path .header entries

/-- Sets a key in the table at a path that a header has opened. -/
def setIn (entries : Entries) (table : List String) (path : List String) (key : String)
    (value : Toml) : Option Entries :=
  change false (fun _ entries => set entries path key value) table .header entries

end Toml

end StreamQuery
