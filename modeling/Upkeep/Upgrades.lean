import Upkeep.Program
import Upkeep.Selection

/-!
# The upgrades of a run

What the usable repositories offer, narrowed to what the run is about. No upgrades means that the
system is up to date.

## Main definitions

* `Upgrades.list`.
-/

namespace Upkeep.Upgrades

/-- The selected upgrades that the usable repositories offer. -/
def list (scope : Scope) (exclude available : List String) (limit : Span) :
    Program (Except RunError (List Candidate)) :=
  .ask (.query available limit) fun a =>
    .done <| match a.value with
      | .expired => .error (.query (timedOut limit))
      | .inTime (.error reason) => .error (.query reason)
      | .inTime (.ok offered) => .ok (Selection.select offered scope available exclude)

end Upkeep.Upgrades
