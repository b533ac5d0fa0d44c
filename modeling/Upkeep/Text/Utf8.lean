/-!
# Reading bytes that should be UTF-8

Output of other programs need not be UTF-8. It is shown with U+FFFD in place of what cannot be
read: one replacement for each longest beginning of a character that the next byte rules out.

The reader is a machine over bytes. Between characters it classifies the first byte; inside one
it knows how many bytes are owed, the bounds of the next one, and the code point so far. The
bounds are what excludes overlong forms, surrogates and code points past the last.

## Main definitions

* `Text.decodeLossy`: bytes to text, with replacements.
* `Text.decode?`: bytes to text when they are UTF-8.
-/

namespace Upkeep.Text

/-- Where the machine stands inside a character. -/
structure Partial where
  /-- Continuation bytes still owed, at least one. -/
  owed : Nat
  /-- Least next byte. -/
  low : Nat
  /-- Greatest next byte. -/
  high : Nat
  /-- The code point's bits so far. -/
  bits : Nat

/-- What a byte between characters starts. -/
inductive Lead where
  /-- A whole character. -/
  | whole (c : Char)
  /-- The first byte of a longer one. -/
  | opens (p : Partial)
  /-- Nothing: the byte starts no character. -/
  | bad

/-- Classifies a byte between characters. -/
def lead (b : Nat) : Lead :=
  if b < 0x80 then .whole (Char.ofNat b)
  else if 0xC2 ≤ b && b ≤ 0xDF then .opens ⟨1, 0x80, 0xBF, b - 0xC0⟩
  else if b == 0xE0 then .opens ⟨2, 0xA0, 0xBF, 0⟩
  else if b == 0xED then .opens ⟨2, 0x80, 0x9F, 0xD⟩
  else if 0xE1 ≤ b && b ≤ 0xEF then .opens ⟨2, 0x80, 0xBF, b - 0xE0⟩
  else if b == 0xF0 then .opens ⟨3, 0x90, 0xBF, 0⟩
  else if 0xF1 ≤ b && b ≤ 0xF3 then .opens ⟨3, 0x80, 0xBF, b - 0xF0⟩
  else if b == 0xF4 then .opens ⟨3, 0x80, 0x8F, 4⟩
  else .bad

/-- The character shown where bytes cannot be read. -/
def replacement : Char := Char.ofNat 0xFFFD

mutual
/-- Reads from between characters. -/
def decodeFrom : List UInt8 → List Char
  | [] => []
  | b :: bs =>
    match lead b.toNat with
    | .whole c => c :: decodeFrom bs
    | .opens p => decodeInside p bs
    | .bad => replacement :: decodeFrom bs

/-- Reads inside a character. A byte out of bounds ends it with one replacement and is itself
read as a first byte. -/
def decodeInside (p : Partial) : List UInt8 → List Char
  | [] => [replacement]
  | b :: bs =>
    let n := b.toNat
    if p.low ≤ n && n ≤ p.high then
      let bits := p.bits * 64 + (n - 0x80)
      if p.owed ≤ 1 then Char.ofNat bits :: decodeFrom bs
      else decodeInside ⟨p.owed - 1, 0x80, 0xBF, bits⟩ bs
    else
      match lead n with
      | .whole c => replacement :: c :: decodeFrom bs
      | .opens q => replacement :: decodeInside q bs
      | .bad => replacement :: replacement :: decodeFrom bs
end

/-- Bytes as text, with U+FFFD for what is not UTF-8. -/
def decodeLossy (bytes : ByteArray) : String :=
  match String.fromUTF8? bytes with
  | some s => s
  | none => String.ofList (decodeFrom bytes.data.toList)

/-- Bytes as text, when all of them are UTF-8. -/
def decode? (bytes : ByteArray) : Option String :=
  String.fromUTF8? bytes

end Upkeep.Text
