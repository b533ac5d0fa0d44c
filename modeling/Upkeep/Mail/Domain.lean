import Upkeep.Mail.Punycode

/-!
# Domains

A domain is a run of labels between dots. A label is at most 63 bytes long and begins and ends
with a letter or a digit. Labels need not be in ASCII, but a text that is no domain as it stands
may still have one as its ASCII form: there some characters do not count, the wide forms of ASCII
characters stand for these, and every other label is written in Punycode.

## Main definitions

* `Domain.isAtomChar`: the characters of a label.
* `Domain.isPlain`: a domain as it stands.
* `Domain.ascii?`: the ASCII form of a text.
* `Domain.isValid`.
-/

namespace Upkeep.Domain

/-! ### Characters -/

/-- The characters of an atom, beyond ASCII all there are. -/
def isAtomChar (c : Char) : Bool :=
  c.isAlphanum || 128 ≤ c.toNat || "!#$%&'*+-/=?^_`\x7b|\x7d~".toList.contains c

/-- Whether a number is in one of some ranges. -/
def isWithin (ranges : List (Nat × Nat)) (n : Nat) : Bool :=
  ranges.any fun (least, greatest) => least ≤ n && n ≤ greatest

/-- Invisible characters that do not count in an ASCII form. -/
def idle : List (Nat × Nat) :=
  [(0xAD, 0xAD), (0x34F, 0x34F), (0x180B, 0x180D), (0x180F, 0x180F), (0x200B, 0x200B),
    (0x2060, 0x2060), (0x2064, 0x2064), (0xFE00, 0xFE0F), (0xFEFF, 0xFEFF), (0xE0100, 0xE01EF)]

/-- Other characters that stand for a dot. -/
def dots : List (Nat × Nat) := [(0x3002, 0x3002), (0xFF0E, 0xFF0E), (0xFF61, 0xFF61)]

/-- The wide forms of ASCII characters. -/
def wide : List (Nat × Nat) := [(0xFF01, 0xFF5E)]

/-- What a wide form is away from its ASCII character. -/
def wideOffset : Nat := 0xFEE0

/-- Controls, joiners, private characters and those that are none: they have no ASCII form. -/
def excluded : List (Nat × Nat) :=
  [(0x80, 0x9F), (0x180E, 0x180E), (0x200C, 0x200F), (0x2028, 0x202E), (0x2061, 0x2063),
    (0x2065, 0x206F), (0xE000, 0xF8FF), (0xFDD0, 0xFDEF), (0xFFF0, 0xFFFF), (0xE0000, 0xE00FF),
    (0xE01F0, 0x10FFFF)]

/-- Marks that go with the character before them, so that no label begins with one. -/
def marks : List (Nat × Nat) :=
  [(0x300, 0x36F), (0x483, 0x489), (0x591, 0x5BD), (0x64B, 0x65F), (0x1AB0, 0x1AFF),
    (0x1DC0, 0x1DFF), (0x20D0, 0x20F0), (0x302A, 0x302F), (0x3099, 0x309A), (0xFE20, 0xFE2F)]

/-- Whether a label may begin and end with a character as it stands. -/
def isEdge (c : Char) : Bool :=
  c.isAlphanum || (128 ≤ c.toNat && !Text.isBlank c &&
    !isWithin (idle ++ dots ++ excluded ++ marks) c.toNat)

/-! ### As it stands -/

/-- The number of bytes. -/
def size (cs : List Char) : Nat := (String.ofList cs).utf8ByteSize

/-- Whether a text is a label. -/
def isLabel (cs : List Char) : Bool :=
  cs.head?.any isEdge && cs.getLast?.any isEdge && cs.all isAtomChar && size cs ≤ 63

/-- Whether a text is a domain as it stands. -/
def isPlain (cs : List Char) : Bool := size cs ≤ 254 && (Text.splitOn '.' cs).all isLabel

/-! ### In ASCII -/

/-- What a character stands for, if it counts. -/
def fold? (c : Char) : Option Char :=
  if isWithin idle c.toNat then none
  else if isWithin dots c.toNat then some '.'
  else if isWithin wide c.toNat then some (Char.ofNat (c.toNat - wideOffset)).toLower
  else some c.toLower

/-- The ASCII form of a label. -/
def asciiLabel (cs : List Char) : List Char :=
  if cs.all (fun c => c.toNat < 128) then cs else "xn--".toList ++ Punycode.encode cs

/-- The ASCII form of a text. A blank has none, since no domain has one. -/
def ascii? (cs : List Char) : Option (List Char) :=
  let folded := cs.filterMap fold?
  let labels := Text.splitOn '.' folded
  if folded.any (fun c => Text.isBlank c || isWithin excluded c.toNat) ||
      labels.any (fun label => label.head?.any fun c => isWithin marks c.toNat) then none
  else some (['.'].intercalate (labels.map asciiLabel))

/-- Whether a text is a domain, as it stands or in ASCII. -/
def isValid (cs : List Char) : Bool := isPlain cs || (ascii? cs).any isPlain

end Upkeep.Domain
