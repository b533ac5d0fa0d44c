import Upkeep.Text.Chars

/-!
# Mail encodings

Mail travels as ASCII in lines of limited length. A text that already is that travels as it is.
One in which few bytes need it has those bytes written as hexadecimal digits; any other is written
in base 64.

## Main definitions

* `TransferEncoding`, `TransferEncoding.choose`, `TransferEncoding.encode`.
* `Base64.encode`.
* `HeaderText.encode`: text in a header.
-/

namespace Upkeep

namespace Base64

/-- The digits. -/
def digits : List Char :=
  "ABCDEFGHIJKLMNOPQRSTUVWXYZabcdefghijklmnopqrstuvwxyz0123456789+/".toList

/-- The digit of a value below 64. -/
def digit (n : Nat) : Char := digits.getD n '='

/-- Three bytes are four digits; where bytes are missing in the end, equals signs stand for the
digits they leave without bits. -/
def encode : List UInt8 → List Char
  | a :: b :: c :: rest =>
    let n := a.toNat * 65536 + b.toNat * 256 + c.toNat
    digit (n / 262144) :: digit (n / 4096 % 64) :: digit (n / 64 % 64) :: digit (n % 64) ::
      encode rest
  | [a, b] =>
    let n := a.toNat * 65536 + b.toNat * 256
    [digit (n / 262144), digit (n / 4096 % 64), digit (n / 64 % 64), '=']
  | [a] => [digit (a.toNat / 4), digit (a.toNat % 4 * 16), '=', '=']
  | [] => []

end Base64

/-- How a body travels. -/
inductive TransferEncoding where
  /-- As it is. -/
  | sevenBit
  /-- With some bytes as hexadecimal digits. -/
  | quotedPrintable
  /-- In base 64. -/
  | base64
  deriving DecidableEq, Repr

namespace TransferEncoding

/-- The name in a header. -/
def name : TransferEncoding → String
  | .sevenBit => "7bit"
  | .quotedPrintable => "quoted-printable"
  | .base64 => "base64"

/-- The longest line that travels as it is. -/
def longestLine : Nat := 998

/-- Whether a byte stands for itself. -/
def isPlain (b : UInt8) : Bool :=
  (32 ≤ b.toNat && b.toNat ≤ 126 && b != 61) || b == 9 || b == 10 || b == 13

/-- Whether a text can travel as it is. -/
def isSevenBit (text : String) : Bool :=
  text.toList.all (fun c => c.toNat < 128) &&
    (Text.splitOn '\n' text.toList).all (fun line => line.length ≤ longestLine)

/-- The encoding that suits a text. -/
def choose (text : String) : TransferEncoding :=
  let bytes := text.toUTF8.data.toList
  if isSevenBit text then .sevenBit
  else if (bytes.countP (fun b => !isPlain b)) * 3 ≤ bytes.length then .quotedPrintable
  else .base64

/-- Pieces of at most so many items. -/
def pieces {α : Type} (size : Nat) (items : List α) : List (List α) :=
  (List.range ((items.length + size - 1) / size)).map fun i => (items.drop (i * size)).take size

/-- A byte as hexadecimal digits. -/
def escaped (b : UInt8) : List Char := '=' :: (Text.hexByte b).map Char.toUpper

/-- A byte of a line; a blank at the end of the line does not stand for itself. -/
def printable (isLast : Bool) (b : UInt8) : List Char :=
  if isPlain b && !(isLast && (b == 32 || b == 9)) then [Char.ofNat b.toNat] else escaped b

/-- The characters of a line. -/
def printableLine : List UInt8 → List (List Char)
  | [] => []
  | [b] => [printable true b]
  | b :: bs => printable false b :: printableLine bs

/-- Characters in lines of at most 75, each but the last with an equals sign at its end. -/
def softLines (line : List Char) : List (List Char) → List (List Char)
  | [] => [line]
  | c :: cs =>
    if 75 < line.length + c.length then (line ++ ['=']) :: softLines c cs
    else softLines (line ++ c) cs

/-- The lines of an encoded text. -/
def encode (text : String) : TransferEncoding → List String
  | .sevenBit => (Text.splitOn '\n' text.toList).map String.ofList
  | .quotedPrintable =>
    (Text.splitOn '\n' text.toList).flatMap fun line =>
      (softLines [] (printableLine (String.ofList line).toUTF8.data.toList)).map String.ofList
  | .base64 =>
    let bytes := (String.intercalate "\r\n" (text.splitOn "\n")).toUTF8.data.toList
    (pieces 76 (Base64.encode bytes)).map String.ofList

end TransferEncoding

namespace HeaderText

/-- Whether a text can stand in a header as it is. -/
def isPlain (text : String) : Bool := text.toList.all fun c => 32 ≤ c.toNat && c.toNat < 127

/-- A text for a header: as it is, or in base 64 with its character set. -/
def encode (text : String) : String :=
  if isPlain text then text
  else "=?utf-8?b?" ++ String.ofList (Base64.encode text.toUTF8.data.toList) ++ "?="

end HeaderText

end Upkeep
