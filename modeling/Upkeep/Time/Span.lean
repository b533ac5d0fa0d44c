/-!
# Lengths of time

A length of time is a number of nanoseconds. Limits and intervals come from configuration as
seconds or milliseconds; `Span.text` is how a length is shown in messages, in the largest unit
that leaves a whole part, with the fraction cut after its last non-zero digit.
-/

namespace Upkeep

/-- A length of time, in nanoseconds. -/
structure Span where
  /-- Nanoseconds. -/
  nanos : Nat
  deriving DecidableEq, Repr, Inhabited

namespace Span

/-- Nanoseconds in one second. -/
def perSecond : Nat := 1000000000

/-- Whole seconds. -/
def ofSeconds (n : Nat) : Span := ⟨n * perSecond⟩

/-- Whole milliseconds. -/
def ofMillis (n : Nat) : Span := ⟨n * 1000000⟩

/-- The whole seconds in a length of time. -/
def seconds (s : Span) : Nat := s.nanos / perSecond

/-- The whole milliseconds in a length of time. -/
def millis (s : Span) : Nat := s.nanos / 1000000

/-- The digits of a fraction of `width` places, without the zeros it ends with. -/
def fractionDigits (width n : Nat) : List Char :=
  let digits := (toString n).toList
  let full := List.replicate (width - digits.length) '0' ++ digits
  (full.reverse.dropWhile (· == '0')).reverse

/-- A whole part and a fraction of `width` places, with a unit. -/
def decimal (whole fraction width : Nat) (unit : String) : String :=
  match fractionDigits width fraction with
  | [] => toString whole ++ unit
  | digits => toString whole ++ "." ++ String.ofList digits ++ unit

/-- A length of time for messages: `3s`, `10ms`, `1.5µs`, `1.000000001s`. -/
def text (s : Span) : String :=
  let n := s.nanos
  if perSecond ≤ n then decimal (n / perSecond) (n % perSecond) 9 "s"
  else if 1000000 ≤ n then decimal (n / 1000000) (n % 1000000) 6 "ms"
  else if 1000 ≤ n then decimal (n / 1000) (n % 1000) 3 "µs"
  else decimal n 0 0 "ns"

end Span

end Upkeep
