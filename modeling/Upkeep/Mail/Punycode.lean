import Upkeep.Text.Chars

/-!
# Punycode

Any text in ASCII letters, digits and hyphens, the way domain names hold it. The ASCII characters
of the text come first, then a hyphen, if there are any, and then where the other characters go.
They go in by code point, and by position among equals; each is told by its distance from the one
before, counted over all code points and positions in between. A distance is written in base 36,
least digit first, with a threshold for each digit below which it is the last; the thresholds
follow a bias that is adapted to the distances so far.

## Main definitions

* `Punycode.encode`.
-/

namespace Upkeep.Punycode

/-- The base. -/
def base : Nat := 36

/-- The digit of a number below 36: a letter, or one of the ten digits after them. -/
def digit (n : Nat) : Char := Char.ofNat (if n < 26 then 97 + n else 22 + n)

/-- The threshold of the digit at a position, which is given as a multiple of the base. -/
def threshold (bias position : Nat) : Nat := max 1 (min 26 (position - bias))

theorem one_le_threshold (bias position : Nat) : 1 ≤ threshold bias position :=
  Nat.le_max_left ..

/-- A number in base 36, from the digit at a position on. -/
def digits (bias position n : Nat) : List Char :=
  let t := threshold bias position
  if n < t then [digit n]
  else digit (t + (n - t) % (base - t)) :: digits bias (position + base) ((n - t) / (base - t))
termination_by n
decreasing_by
  have := one_le_threshold bias position
  exact Nat.lt_of_le_of_lt (Nat.div_le_self ..) (by omega)

/-- The bias for a distance that has been scaled: a step of the base for every digit that it is
likely to need, up to the last. -/
def biasFor (n : Nat) : Nat :=
  if 455 < n then base + biasFor (n / 35) else base * n / (n + 38)
termination_by n
decreasing_by exact Nat.div_lt_self (by omega) (by omega)

/-- The bias after a distance, when so many characters are in. The first distance tells little
about the next one. -/
def adapt (distance count : Nat) (first : Bool) : Nat :=
  let n := distance / (if first then 700 else 2)
  biasFor (n + n / count)

/-- How far the characters are in. -/
structure State where
  /-- What has been written. -/
  written : List Char
  /-- The distance so far to the next character. -/
  distance : Nat
  /-- The bias. -/
  bias : Nat
  /-- How many characters are in. -/
  count : Nat

/-- One character of the text goes by, while those of a code point go in. -/
def State.pass (start code : Nat) (s : State) (c : Char) : State :=
  if c.toNat < code then { s with distance := s.distance + 1 }
  else if c.toNat == code then
    { written := s.written ++ digits s.bias base s.distance
      distance := 0
      bias := adapt s.distance (s.count + 1) (s.count == start)
      count := s.count + 1 }
  else s

/-- The characters of some code points go in, which are in order. `next` is the least code point
that has not been counted. -/
def enter (text : List Char) (start : Nat) : (next : Nat) → List Nat → State → State
  | _, [], s => s
  | next, code :: codes, s =>
    let s := { s with distance := s.distance + (code - next) * (s.count + 1) }
    let s := text.foldl (State.pass start code) s
    enter text start (code + 1) codes { s with distance := s.distance + 1 }

/-- The ASCII characters of a text. -/
def basic (text : List Char) : List Char := text.filter (fun c => c.toNat < 128)

/-- The other code points of a text, in order. -/
def others (text : List Char) : List Nat :=
  (((text.map Char.toNat).filter (128 ≤ ·)).mergeSort (· ≤ ·)).eraseDups

/-- A text in ASCII. -/
def encode (text : List Char) : List Char :=
  let start := (basic text).length
  let s := enter text start 128 (others text) ⟨[], 0, 72, start⟩
  basic text ++ (if start == 0 then [] else ['-']) ++ s.written

end Upkeep.Punycode
