/-!
# JSON values

A JSON text is kept as close to what was written as reading it needs: an object is a list of
members in the order they were written, repeats included, and a number is its sign and whole part
together with whether anything followed them. Which repeats and which numbers are acceptable is
for the reader of a particular record to say (`Upkeep.Json.Record`).

A string literal whose escapes name half of a surrogate pair is well formed but denotes no text.
It may stand where a value is skipped and nowhere else, so it is a value of its own.

## Main definitions

* `Json`: values.
* `Json.compact`, `Json.pretty`: the two written forms.
-/

namespace Upkeep

/-- A JSON value as written. -/
inductive Json where
  /-- `null`. -/
  | null
  /-- `true` or `false`. -/
  | bool (b : Bool)
  /-- A number: its sign, its whole part, and whether it had neither fraction nor exponent. -/
  | number (negative : Bool) (whole : Nat) (exact : Bool)
  /-- A string. -/
  | text (s : String)
  /-- A string literal that denotes no text. -/
  | brokenText
  /-- An array. -/
  | array (items : List Json)
  /-- An object: its members in order. A name that denotes no text is `none`. -/
  | object (members : List (Option String × Json))
  deriving Repr, Inhabited, BEq

namespace Json

/-- A natural number. -/
def nat (n : Nat) : Json := .number false n true

/-- An object whose names are all texts. -/
def record (members : List (String × Json)) : Json :=
  .object (members.map (fun (name, value) => (some name, value)))

/-- A text, or `null` when there is none. -/
def optional {α : Type} (f : α → Json) : Option α → Json
  | none => .null
  | some a => f a

/-- The member of an object with a name; the first one when it is repeated. -/
def member? (name : String) : Json → Option Json
  | .object members =>
    (members.find? (fun (key, _) => key == some name)).map (fun (_, value) => value)
  | _ => none

/-! ### Written forms -/

/-- One character of a string literal. -/
def escapeChar (c : Char) : List Char :=
  if c == '"' then ['\\', '"']
  else if c == '\\' then ['\\', '\\']
  else if c == '\n' then ['\\', 'n']
  else if c == '\r' then ['\\', 'r']
  else if c == '\t' then ['\\', 't']
  else if c.toNat == 8 then ['\\', 'b']
  else if c.toNat == 12 then ['\\', 'f']
  else if c.toNat < 32 then
    let digit (n : Nat) : Char := if n < 10 then Char.ofNat (48 + n) else Char.ofNat (87 + n)
    ['\\', 'u', '0', '0', digit (c.toNat / 16), digit (c.toNat % 16)]
  else [c]

/-- A string literal. -/
def quote (s : String) : String :=
  "\"" ++ String.ofList (s.toList.flatMap escapeChar) ++ "\""

/-- A number literal. -/
def numberText (negative : Bool) (whole : Nat) : String :=
  (if negative then "-" else "") ++ toString whole

mutual
/-- The shortest written form: no blanks. -/
def compact : Json → String
  | .null => "null"
  | .bool b => if b then "true" else "false"
  | .number negative whole _ => numberText negative whole
  | .text s => quote s
  | .brokenText => "\"\""
  | .array items => "[" ++ compactItems items ++ "]"
  | .object members => "\x7b" ++ compactMembers members ++ "\x7d"

/-- Array items, separated by commas. -/
def compactItems : List Json → String
  | [] => ""
  | [item] => compact item
  | item :: items => compact item ++ "," ++ compactItems items

/-- Object members, separated by commas. -/
def compactMembers : List (Option String × Json) → String
  | [] => ""
  | [(name, value)] => quote (name.getD "") ++ ":" ++ compact value
  | (name, value) :: members =>
    quote (name.getD "") ++ ":" ++ compact value ++ "," ++ compactMembers members
end

/-- The start of a line at a nesting depth: two blanks for each level. -/
def indent (depth : Nat) : String :=
  "\n" ++ String.ofList (List.replicate (2 * depth) ' ')

mutual
/-- The written form with one item or member a line. -/
def prettyAt (depth : Nat) : Json → String
  | .null => "null"
  | .bool b => if b then "true" else "false"
  | .number negative whole _ => numberText negative whole
  | .text s => quote s
  | .brokenText => "\"\""
  | .array [] => "[]"
  | .array items => "[" ++ prettyItems (depth + 1) items ++ indent depth ++ "]"
  | .object [] => "\x7b\x7d"
  | .object members => "\x7b" ++ prettyMembers (depth + 1) members ++ indent depth ++ "\x7d"

/-- Array items, each on its own line. -/
def prettyItems (depth : Nat) : List Json → String
  | [] => ""
  | [item] => indent depth ++ prettyAt depth item
  | item :: items => indent depth ++ prettyAt depth item ++ "," ++ prettyItems depth items

/-- Object members, each on its own line. -/
def prettyMembers (depth : Nat) : List (Option String × Json) → String
  | [] => ""
  | [(name, value)] => indent depth ++ quote (name.getD "") ++ ": " ++ prettyAt depth value
  | (name, value) :: members =>
    indent depth ++ quote (name.getD "") ++ ": " ++ prettyAt depth value ++ "," ++
      prettyMembers depth members
end

/-- The written form with one item or member a line, indented by two blanks. -/
def pretty (j : Json) : String := prettyAt 0 j

end Json

end Upkeep
