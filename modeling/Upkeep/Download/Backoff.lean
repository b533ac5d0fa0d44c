import Upkeep.Time.Span

/-!
# Waiting between attempts

The time before the next attempt doubles with every attempt, up to a maximum, and chance adds up
to half of it again so that many hosts do not come back at once. Doubling stops after 32 times,
and the product stays below 2^64.

## Main definitions

* `Backoff.delay`, `Backoff.rest`.
-/

namespace Upkeep.Backoff

/-- The largest number of 64 bits. -/
def largest : Nat := 18446744073709551615

/-- Milliseconds to wait after so many attempts. -/
def delay (attempt base most : Nat) : Nat :=
  min (min (base * Nat.pow 2 (min (attempt - 1) 32)) largest) most

/-- Milliseconds that are really waited: up to half again, by chance. -/
def rest (delay : Nat) (chance : Nat) : Nat := delay + chance % (delay / 2 + 1)

end Upkeep.Backoff
