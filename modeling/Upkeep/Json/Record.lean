import Upkeep.Json.Value

/-!
# Records in JSON

A record is written as an object and may also be read from an array that gives its fields in
order. Members of an object that the record does not know are skipped, whatever they hold; a
known one must not be repeated. A name that denotes no text cannot be compared with the known
ones, so it is refused.

Three kinds of field differ in what their absence means. A required field must be there. An
optional one may be missing from an object, or `null`, but an array must still reach it. A
defaulted one may be missing from both.

A choice among names is written as a string, or as an object with that one name and `null`.

## Main definitions

* `Json.Record`, `Json.asRecord`: the fields of a record.
* `Json.asText`, `Json.asNat`, `Json.asBool`, `Json.asChoice`, `Json.asList`: field values.
-/

namespace Upkeep.Json

/-- The fields found in a record, and whether they came from an array. -/
structure Record where
  /-- Name and value of each field that is present. -/
  fields : List (String × Json)
  /-- Whether the record was written as an array. -/
  positional : Bool

/-- Collects the known members of an object, refusing repeats and unreadable names. -/
def collect (names : List String) :
    List (Option String × Json) → List (String × Json) → Option (List (String × Json))
  | [], found => some found
  | (none, _) :: _, _ => none
  | (some name, value) :: rest, found =>
    if names.contains name then
      if found.any (fun (n, _) => n == name) then none
      else collect names rest (found ++ [(name, value)])
    else collect names rest found

/-- Reads a value as a record with the given field names. -/
def asRecord (names : List String) : Json → Option Record
  | .object members => (collect names members []).map (fun fields => ⟨fields, false⟩)
  | .array items =>
    if names.length < items.length then none else some ⟨names.zip items, true⟩
  | _ => none

namespace Record

/-- The value of a field, if it is present. -/
def find? (r : Record) (name : String) : Option Json :=
  (r.fields.find? (fun (n, _) => n == name)).map (fun (_, value) => value)

/-- A field that must be there. -/
def required {α : Type} (r : Record) (name : String) (read : Json → Option α) : Option α :=
  (r.find? name).bind read

/-- A field that may be `null`, or missing from an object. -/
def optional {α : Type} (r : Record) (name : String) (read : Json → Option α) :
    Option (Option α) :=
  match r.find? name with
  | none => if r.positional then none else some none
  | some .null => some none
  | some value => (read value).map some

/-- A field that may be missing; `null` is a value like any other. -/
def orElse {α : Type} (r : Record) (name : String) (fallback : α) (read : Json → Option α) :
    Option α :=
  match r.find? name with
  | none => some fallback
  | some value => read value

/-- A field that may be missing or `null`. -/
def defaulted {α : Type} (r : Record) (name : String) (read : Json → Option α) :
    Option (Option α) :=
  match r.find? name with
  | none => some none
  | some .null => some none
  | some value => (read value).map some

end Record

/-- A string. -/
def asText : Json → Option String
  | .text s => some s
  | _ => none

/-- A truth value. -/
def asBool : Json → Option Bool
  | .bool b => some b
  | _ => none

/-- A natural number below a limit. -/
def asNat (limit : Nat) : Json → Option Nat
  | .number false n true => if n < limit then some n else none
  | _ => none

/-- A list of values of one kind. -/
def asList {α : Type} (read : Json → Option α) : Json → Option (List α)
  | .array items => items.mapM read
  | _ => none

/-- A name: a string, or an object with that one name and `null`. -/
def asName : Json → Option String
  | .text s => some s
  | .object [(some name, .null)] => some name
  | _ => none

/-- One of a list of named choices. -/
def asChoice {α : Type} (choices : List (String × α)) (j : Json) : Option α :=
  (asName j).bind (fun name =>
    (choices.find? (fun (n, _) => n == name)).map (fun (_, a) => a))

end Upkeep.Json
