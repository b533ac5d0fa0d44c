import Upkeep.Json.Value

/-!
# Loose reading

A description that people write by hand leaves out what does not matter. A member that is absent,
or is not of the type that is asked for, counts as empty, or as a given default.

## Main definitions

* `Json.part`, `Json.textAt`, `Json.natAt`, `Json.boolAt`, `Json.listAt` and their kin.
-/

namespace Upkeep.Json

/-- A member, null when it is absent. -/
def part (j : Json) (name : String) : Json := (j.member? name).getD .null

/-- A member that is text. -/
def textAt? (j : Json) (name : String) : Option String :=
  match j.member? name with
  | some (.text s) => some s
  | _ => none

/-- A member that is text, else the empty text. -/
def textAt (j : Json) (name : String) : String := (j.textAt? name).getD ""

/-- A member that is a natural number, else a default. -/
def natAt (j : Json) (name : String) (default : Nat) : Nat :=
  match j.member? name with
  | some (.number false n _) => n
  | _ => default

/-- The number of words of 64 bits. -/
def words : Nat := 18446744073709551616

/-- A member that is a whole number of 64 bits, else zero. The larger words count as the negative
numbers they stand for. -/
def intAt (j : Json) (name : String) : Int :=
  match j.member? name with
  | some (.number true n _) => -(n : Int)
  | some (.number false n _) => (n : Int).bmod words
  | _ => 0

/-- A member that is true or false. -/
def boolAt? (j : Json) (name : String) : Option Bool :=
  match j.member? name with
  | some (.bool b) => some b
  | _ => none

/-- Whether a member is true. -/
def boolAt (j : Json) (name : String) : Bool := (j.boolAt? name).getD false

/-- The items of a member. -/
def listAt (j : Json) (name : String) : List Json :=
  match j.member? name with
  | some (.array items) => items
  | _ => []

/-- The texts among the items of a member. -/
def textsAt (j : Json) (name : String) : List String :=
  (j.listAt name).filterMap fun
    | .text s => some s
    | _ => none

/-- The members of an object, in order. -/
def members : Json → List (String × Json)
  | .object ms => ms.filterMap fun (name, v) => name.map fun n => (n, v)
  | _ => []

end Upkeep.Json
