import Upkeep.Toml.Value

/-!
# Settings in TOML

A section of settings is a table; an array that gives the settings in order is read as one too,
and what it holds past the last setting is ignored. A date or a time of day counts as a table that
has none of the settings. Every setting has a default, so an absent one is never wrong; a present
one must have the right type, and an integer must fit its setting.

## Main definitions

* `Toml.Section`, `Toml.asSection`: the settings of a section.
* `Toml.Section.setting`: one setting with its default.
* `Toml.asText`, `Toml.asNat`, `Toml.asBool`, `Toml.asChoice`, `Toml.asList`: setting values.
-/

namespace Upkeep.Toml

/-- The settings present in a section. -/
structure Section where
  /-- Name and value. -/
  entries : List (String × Toml)

/-- Reads a value as a section with the given settings. -/
def asSection (names : List String) : Toml → Option Section
  | .table _ entries => some ⟨entries⟩
  | .array items => some ⟨names.zip items⟩
  | .tables items => some ⟨names.zip items⟩
  | .moment => some ⟨[]⟩
  | _ => none

/-- The value of a setting, or its default. -/
def Section.setting {α : Type} (s : Section) (name : String) (fallback : α)
    (read : Toml → Option α) : Option α :=
  match find? name s.entries with
  | none => some fallback
  | some value => read value

/-- A string. -/
def asText : Toml → Option String
  | .text s => some s
  | _ => none

/-- A truth value. -/
def asBool : Toml → Option Bool
  | .bool b => some b
  | _ => none

/-- A natural number below a limit. -/
def asNat (limit : Nat) : Toml → Option Nat
  | .integer n => if 0 ≤ n && n < (limit : Int) then some n.toNat else none
  | _ => none

/-- A list of values of one kind. -/
def asList {α : Type} (read : Toml → Option α) : Toml → Option (List α)
  | .array items => items.mapM read
  | .tables items => items.mapM read
  | _ => none

/-- Whether a value holds nothing. -/
def isEmptyValue : Toml → Bool
  | .array [] => true
  | .table _ [] => true
  | _ => false

/-- A name: a string, or a table with that one name and nothing under it. -/
def asName : Toml → Option String
  | .text s => some s
  | .table _ [(name, value)] => if isEmptyValue value then some name else none
  | _ => none

/-- One of a list of named choices. -/
def asChoice {α : Type} (choices : List (String × α)) (t : Toml) : Option α :=
  (asName t).bind (fun name =>
    (choices.find? (fun (n, _) => n == name)).map (fun (_, a) => a))

end Upkeep.Toml
