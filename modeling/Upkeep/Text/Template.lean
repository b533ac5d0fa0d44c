import Upkeep.Text.Chars

/-!
# Templates

Command lines and their input are templates: a known name in braces stands for a value. A template
is divided into pieces once, by its own text and the known names; the values only come in when the
pieces are written out, so text that comes from a value is never looked at again.

An opening brace that starts no known name stands for itself, and reading goes on right after it.

## Main definitions

* `Template.pieces`: the division of a template.
* `Template.fill`: the pieces with values.
-/

namespace Upkeep.Template

/-- A piece of a template. -/
inductive Piece where
  /-- A character that stands for itself. -/
  | char (c : Char)
  /-- A known name. -/
  | slot (key : String)
  deriving DecidableEq, Repr

/-- Divides a template; every step uses up a character, which `fuel` counts. -/
def piecesFrom (keys : List String) : (fuel : Nat) → List Char → List Piece
  | 0, _ => []
  | _, [] => []
  | fuel + 1, '{' :: rest =>
    match Text.cut '}' rest with
    | some (key, after) =>
      if keys.contains (String.ofList key) then
        .slot (String.ofList key) :: piecesFrom keys fuel after
      else .char '{' :: piecesFrom keys fuel rest
    | none => .char '{' :: piecesFrom keys fuel rest
  | fuel + 1, c :: rest => .char c :: piecesFrom keys fuel rest

/-- The division of a template. -/
def pieces (keys : List String) (template : String) : List Piece :=
  piecesFrom keys template.toList.length template.toList

/-- The value of a name: the first one given for it. -/
def valueOf (values : List (String × String)) (key : String) : String :=
  match values.find? (fun (k, _) => k == key) with
  | some (_, value) => value
  | none => ""

/-- The text of a piece. -/
def Piece.text (values : List (String × String)) : Piece → List Char
  | .char c => [c]
  | .slot key => (valueOf values key).toList

/-- A template with values for its names. -/
def fill (template : String) (values : List (String × String)) : String :=
  String.ofList
    ((pieces (values.map (fun (key, _) => key)) template).flatMap (Piece.text values))

end Upkeep.Template
