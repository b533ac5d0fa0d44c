import Upkeep.Json.Value
import Upkeep.Text.Chars

/-!
# Reading JSON

A reader over a list of characters: every function returns what it read and what is left. The
nesting of a text is bounded by its length, so the readers of values carry the length as the
number of levels they may still open, and are total.

## Main definitions

* `Json.parse`: the value a whole text denotes, blanks around it allowed.
-/

namespace Upkeep.Json

/-- The characters left to read. -/
abbrev Rest := List Char

/-- JSON blanks. -/
def isGap (c : Char) : Bool := c == ' ' || c == '\n' || c == '\t' || c == '\r'

/-- Skips blanks. -/
def skipGap (cs : Rest) : Rest := cs.dropWhile isGap

/-- What a piece of a string literal contributes. -/
inductive Piece where
  /-- A character. -/
  | char (c : Char)
  /-- The first half of a surrogate pair. -/
  | high (n : Nat)
  /-- The second half of a surrogate pair. -/
  | low (n : Nat)

/-- The piece of a code unit given by four hexadecimal digits. -/
def pieceOfUnit (n : Nat) : Piece :=
  if 0xD800 ≤ n && n ≤ 0xDBFF then .high n
  else if 0xDC00 ≤ n && n ≤ 0xDFFF then .low n
  else .char (Char.ofNat n)

/-- Reads the pieces of a string literal after its opening quote. -/
def readPieces : Rest → Option (List Piece × Rest)
  | [] => none
  | '"' :: rest => some ([], rest)
  | '\\' :: 'u' :: a :: b :: c :: d :: rest =>
    match Text.hexDigit? a, Text.hexDigit? b, Text.hexDigit? c, Text.hexDigit? d with
    | some a, some b, some c, some d =>
      (readPieces rest).map (fun (ps, r) =>
        (pieceOfUnit (((a * 16 + b) * 16 + c) * 16 + d) :: ps, r))
    | _, _, _, _ => none
  | '\\' :: e :: rest =>
    let plain (c : Char) := (readPieces rest).map (fun (ps, r) => (Piece.char c :: ps, r))
    match e with
    | '"' => plain '"'
    | '\\' => plain '\\'
    | '/' => plain '/'
    | 'b' => plain (Char.ofNat 8)
    | 'f' => plain (Char.ofNat 12)
    | 'n' => plain '\n'
    | 'r' => plain '\r'
    | 't' => plain '\t'
    | _ => none
  | c :: rest =>
    if c.toNat < 32 then none
    else (readPieces rest).map (fun (ps, r) => (Piece.char c :: ps, r))

/-- The text of pieces: every first half of a surrogate pair must be followed by a second one. -/
def joinPieces : List Piece → Option (List Char)
  | [] => some []
  | .char c :: ps => (joinPieces ps).map (c :: ·)
  | .high h :: .low l :: ps =>
    (joinPieces ps).map (Char.ofNat (0x10000 + (h - 0xD800) * 0x400 + (l - 0xDC00)) :: ·)
  | .high _ :: _ => none
  | .low _ :: _ => none

/-- Reads a string literal after its opening quote; `none` inside is a literal without a text. -/
def readString (cs : Rest) : Option (Option String × Rest) :=
  (readPieces cs).map (fun (ps, rest) => ((joinPieces ps).map String.ofList, rest))

/-- Reads the digits at the start of a text as a number; there must be at least one. -/
def readDigits (cs : Rest) : Option (Nat × Rest) :=
  let digits := cs.takeWhile Char.isDigit
  if digits.isEmpty then none
  else some (digits.foldl (fun n c => n * 10 + (c.toNat - 48)) 0, cs.drop digits.length)

/-- Reads the whole part of a number: a single zero, or digits that start with another one. -/
def readWhole : Rest → Option (Nat × Rest)
  | '0' :: c :: rest => if c.isDigit then none else some (0, c :: rest)
  | '0' :: [] => some (0, [])
  | cs => readDigits cs

/-- Reads a fraction, if there is one. -/
def readFraction : Rest → Option (Bool × Rest)
  | '.' :: rest => (readDigits rest).map (fun (_, r) => (true, r))
  | cs => some (false, cs)

/-- Reads an exponent, if there is one. -/
def readExponent : Rest → Option (Bool × Rest)
  | e :: rest =>
    if e == 'e' || e == 'E' then
      let body := match rest with
        | '+' :: r => r
        | '-' :: r => r
        | r => r
      (readDigits body).map (fun (_, r) => (true, r))
    else some (false, e :: rest)
  | [] => some (false, [])

/-- Reads a number. -/
def readNumber (cs : Rest) : Option (Json × Rest) := do
  let (negative, cs) := match cs with
    | '-' :: rest => (true, rest)
    | rest => (false, rest)
  let (whole, cs) ← readWhole cs
  let (hasFraction, cs) ← readFraction cs
  let (hasExponent, cs) ← readExponent cs
  some (.number negative whole (!hasFraction && !hasExponent), cs)

mutual
/-- Reads a value; `levels` bounds how deep arrays and objects may still nest. -/
def readValue : (levels : Nat) → Rest → Option (Json × Rest)
  | 0, _ => none
  | levels + 1, cs =>
    match cs with
    | 'n' :: 'u' :: 'l' :: 'l' :: rest => some (.null, rest)
    | 't' :: 'r' :: 'u' :: 'e' :: rest => some (.bool true, rest)
    | 'f' :: 'a' :: 'l' :: 's' :: 'e' :: rest => some (.bool false, rest)
    | '"' :: rest =>
      (readString rest).map (fun (s, r) =>
        (match s with
          | some s => .text s
          | none => .brokenText, r))
    | '[' :: rest =>
      match skipGap rest with
      | ']' :: r => some (.array [], r)
      | r => (readItems levels r).map (fun (items, r) => (.array items, r))
    | '{' :: rest =>
      match skipGap rest with
      | '}' :: r => some (.object [], r)
      | r => (readMembers levels r).map (fun (members, r) => (.object members, r))
    | _ => readNumber cs

/-- Reads array items up to the closing bracket. -/
def readItems : (levels : Nat) → Rest → Option (List Json × Rest)
  | 0, _ => none
  | levels + 1, cs =>
    match readValue levels (skipGap cs) with
    | none => none
    | some (item, rest) =>
      match skipGap rest with
      | ',' :: r => (readItems levels r).map (fun (items, r) => (item :: items, r))
      | ']' :: r => some ([item], r)
      | _ => none

/-- Reads object members up to the closing brace. -/
def readMembers : (levels : Nat) → Rest → Option (List (Option String × Json) × Rest)
  | 0, _ => none
  | levels + 1, cs =>
    match skipGap cs with
    | '"' :: rest =>
      match readString rest with
      | none => none
      | some (name, rest) =>
        match skipGap rest with
        | ':' :: rest =>
          match readValue levels (skipGap rest) with
          | none => none
          | some (value, rest) =>
            match skipGap rest with
            | ',' :: r =>
              (readMembers levels r).map (fun (members, r) => ((name, value) :: members, r))
            | '}' :: r => some ([(name, value)], r)
            | _ => none
        | _ => none
    | _ => none
end

/-- The value a list of characters denotes. -/
def parseChars (cs : List Char) : Option Json :=
  match readValue (2 * cs.length + 2) (skipGap cs) with
  | some (value, rest) => if (skipGap rest).isEmpty then some value else none
  | none => none

/-- The value a text denotes. -/
def parse (s : String) : Option Json := parseChars s.toList

end Upkeep.Json
