/-!
# TOML values and tables

A document is a table built up statement by statement. Whether a statement may add to a table
depends on how the table came to be, so each table remembers its origin: written under its own
header, implied by a longer header, opened by a dotted key, or closed by the braces of an inline
table. The rules that follow from the origins are all in `Toml.under` and the three statements
built on it.

Instants and floating-point numbers are read and never looked into: no setting is one, so only
their being there matters.

## Main definitions

* `Toml`: values.
* `Toml.under`: change the table a path leads to.
* `Toml.addHeader`, `Toml.addArrayHeader`, `Toml.addValue`: what the three statements do.
-/

namespace Upkeep

/-- How a table came to be. -/
inductive TableOrigin where
  /-- Under its own header. -/
  | written
  /-- As a step of a longer header. -/
  | implied
  /-- As a step of a dotted key. -/
  | dotted
  /-- Between braces; complete. -/
  | inline
  deriving DecidableEq, Repr

/-- A TOML value. -/
inductive Toml where
  /-- A string. -/
  | text (s : String)
  /-- An integer. -/
  | integer (n : Int)
  /-- A floating-point number. -/
  | float
  /-- A truth value. -/
  | bool (b : Bool)
  /-- A date, a time of day, or both. -/
  | moment
  /-- An array between brackets. -/
  | array (items : List Toml)
  /-- A table. -/
  | table (origin : TableOrigin) (entries : List (String × Toml))
  /-- The tables of repeated double-bracket headers; never empty. -/
  | tables (items : List Toml)
  deriving Repr, Inhabited

namespace Toml

/-- The value of a key. -/
def find? (key : String) (entries : List (String × Toml)) : Option Toml :=
  (entries.find? (fun (k, _) => k == key)).map (fun (_, v) => v)

/-- Gives a key that is there another value. -/
def replace (key : String) (value : Toml) (entries : List (String × Toml)) :
    List (String × Toml) :=
  entries.map (fun (k, v) => if k == key then (k, value) else (k, v))

/-- Changes the table a path leads to, opening the tables that are not there yet. A dotted key
(`viaKey`) may not pass through a table that has a header of its own; nothing may pass through a
value or an inline table; the last table of repeated headers stands for all of them. -/
def under (viaKey : Bool) (change : Toml → Option Toml) : List String → Toml → Option Toml
  | [], t => change t
  | key :: path, .table origin entries =>
    match find? key entries with
    | none => do
      let inner ← under viaKey change path (.table (if viaKey then .dotted else .implied) [])
      some (.table origin (entries ++ [(key, inner)]))
    | some (.table inner found) =>
      if inner == .inline || (viaKey && inner == .written) then none
      else do
        let changed ← under viaKey change path (.table inner found)
        some (.table origin (replace key changed entries))
    | some (.tables items) =>
      match items.getLast? with
      | none => none
      | some last => do
        let changed ← under viaKey change path last
        some (.table origin (replace key (.tables (items.dropLast ++ [changed])) entries))
    | some _ => none
  | _ :: _, _ => none

/-- What a table header does in the table above it: a table may get its header once, and only if
nothing but longer headers mentioned it before. -/
def openTable (key : String) : Toml → Option Toml
  | .table origin entries =>
    match find? key entries with
    | none => some (.table origin (entries ++ [(key, .table .written [])]))
    | some (.table .implied found) =>
      some (.table origin (replace key (.table .written found) entries))
    | some _ => none
  | _ => none

/-- What a double-bracket header does in the table above it. -/
def openNext (key : String) : Toml → Option Toml
  | .table origin entries =>
    match find? key entries with
    | none => some (.table origin (entries ++ [(key, .tables [.table .written []])]))
    | some (.tables items) =>
      some (.table origin (replace key (.tables (items ++ [.table .written []])) entries))
    | some _ => none
  | _ => none

/-- A header for the table at a path. -/
def addHeader (path : List String) (key : String) (document : Toml) : Option Toml :=
  under false (openTable key) path document

/-- A double-bracket header for the tables at a path. -/
def addArrayHeader (path : List String) (key : String) (document : Toml) : Option Toml :=
  under false (openNext key) path document

/-- Adds a key in the table its dotted path leads to: a key with a path must end in a table dotted
keys opened, and no key may be there twice. -/
def insertKey (viaPath : Bool) (key : String) (value : Toml) : Toml → Option Toml
  | .table origin entries =>
    if (origin == .dotted) != viaPath then none
    else if (find? key entries).isSome then none
    else some (.table origin (entries ++ [(key, value)]))
  | _ => none

/-- Adds a value under a dotted key, in the table whose header was the last. -/
def addValue (header path : List String) (key : String) (value : Toml) (document : Toml) :
    Option Toml :=
  under false (fun current => under true (insertKey (!path.isEmpty) key value) path current)
    header document

end Toml

end Upkeep
