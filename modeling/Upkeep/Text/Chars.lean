/-!
# Lines, words and blanks

Every reader of command output in this project works on a list of characters: the list is what
its laws are about, and a `String` only appears at the edges. This file holds the few list
operations those readers share.

Blank means the Unicode property White_Space, which is a fixed list of code points; it is not
the smaller ASCII notion, because package tools print whatever a repository says.

## Main definitions

* `Text.isBlank`, `Text.trim`, `Text.words`: blanks, and splitting at them.
* `Text.lines`: lines ended by a line feed, with one carriage return before it dropped.
* `Text.splitOn`, `Text.cut`, `Text.cutLast`: fields between separators.
-/

namespace Upkeep.Text

/-- The Unicode property White_Space. -/
def isBlank (c : Char) : Bool :=
  let n := c.toNat
  (0x09 ≤ n && n ≤ 0x0D) || n == 0x20 || n == 0x85 || n == 0xA0 || n == 0x1680 ||
    (0x2000 ≤ n && n ≤ 0x200A) || n == 0x2028 || n == 0x2029 || n == 0x202F || n == 0x205F ||
    n == 0x3000

/-- The text without the blanks it starts with. -/
def trimStart (cs : List Char) : List Char :=
  cs.dropWhile isBlank

/-- The text without the blanks it ends with. -/
def trimEnd (cs : List Char) : List Char :=
  (cs.reverse.dropWhile isBlank).reverse

/-- The text without blanks at either end. -/
def trim (cs : List Char) : List Char :=
  trimEnd (trimStart cs)

/-- `String` form of `trim`. -/
def trimString (s : String) : String :=
  String.ofList (trim s.toList)

/-- The parts of a text between occurrences of a separator; `n` separators give `n + 1` parts. -/
def splitOn (sep : Char) : List Char → List (List Char)
  | [] => [[]]
  | c :: cs =>
    if c == sep then [] :: splitOn sep cs
    else match splitOn sep cs with
      | [] => [[c]]
      | part :: parts => (c :: part) :: parts

/-- Like `splitOn`, at every character a test accepts. -/
def splitWhere (p : Char → Bool) : List Char → List (List Char)
  | [] => [[]]
  | c :: cs =>
    if p c then [] :: splitWhere p cs
    else match splitWhere p cs with
      | [] => [[c]]
      | part :: parts => (c :: part) :: parts

/-- The non-empty runs of characters between blanks. -/
def words (cs : List Char) : List (List Char) :=
  (splitWhere isBlank cs).filter (fun w => !w.isEmpty)

/-- One carriage return at the end of a line belongs to the line's ending. -/
def dropCarriageReturn (line : List Char) : List Char :=
  match line.reverse with
  | '\r' :: rest => rest.reverse
  | _ => line

/-- Lines from the parts between line feeds: each part but the last was ended by a line feed and
loses one carriage return; the last one was not, and is a line only if it is not empty. -/
def linesOfParts : List (List Char) → List (List Char)
  | [] => []
  | [last] => if last.isEmpty then [] else [last]
  | part :: parts => dropCarriageReturn part :: linesOfParts parts

/-- The lines of a text, without their endings. -/
def lines (cs : List Char) : List (List Char) :=
  linesOfParts (splitOn '\n' cs)

/-- The text before and after the first occurrence of a separator. -/
def cut (sep : Char) : List Char → Option (List Char × List Char)
  | [] => none
  | c :: cs =>
    if c == sep then some ([], cs)
    else (cut sep cs).map (fun (before, after) => (c :: before, after))

/-- The text before and after the last occurrence of a separator. -/
def cutLast (sep : Char) (cs : List Char) : Option (List Char × List Char) :=
  (cut sep cs.reverse).map (fun (after, before) => (before.reverse, after.reverse))

/-- What follows a given beginning, when the text starts with it. -/
def after? : (start : List Char) → List Char → Option (List Char)
  | [], cs => some cs
  | _ :: _, [] => none
  | s :: start, c :: cs => if s == c then after? start cs else none

/-- ASCII letters in lower case; every other character as it is. -/
def lowerAscii (s : String) : String :=
  String.ofList (s.toList.map Char.toLower)

/-- ASCII digits in either case of the hexadecimal letters. -/
def isHexDigit (c : Char) : Bool :=
  ('0' ≤ c && c ≤ '9') || ('a' ≤ c && c ≤ 'f') || ('A' ≤ c && c ≤ 'F')

/-- The value of a decimal digit, when the character is one. -/
def digit? (c : Char) : Option Nat :=
  if '0' ≤ c && c ≤ '9' then some (c.toNat - '0'.toNat) else none

/-- The value of a hexadecimal digit, when the character is one. -/
def hexDigit? (c : Char) : Option Nat :=
  if '0' ≤ c && c ≤ '9' then some (c.toNat - '0'.toNat)
  else if 'a' ≤ c && c ≤ 'f' then some (c.toNat - 'a'.toNat + 10)
  else if 'A' ≤ c && c ≤ 'F' then some (c.toNat - 'A'.toNat + 10)
  else none

/-- The lower-case hexadecimal digit of a value below sixteen. -/
def hexChar (n : Nat) : Char :=
  if n < 10 then Char.ofNat ('0'.toNat + n) else Char.ofNat ('a'.toNat + (n - 10))

/-- Two lower-case hexadecimal digits for one byte. -/
def hexByte (b : UInt8) : List Char :=
  [hexChar (b.toNat / 16), hexChar (b.toNat % 16)]

/-- A number in decimal, filled up with zeros on the left to a width. -/
def padded (width n : Nat) : String :=
  let digits := toString n
  String.ofList (List.replicate (width - digits.length) '0') ++ digits

end Upkeep.Text
