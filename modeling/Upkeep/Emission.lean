import Upkeep.Program

/-!
# Reporting a run

What every configured emitter is asked to do at the end of a run. A run that was not due is not
reported at all. A run that found nothing to upgrade is reported only when that is wanted;
otherwise every emitter withdraws what it said before. Emitters are independent: one that fails
or takes too long is noted, and the others are asked all the same.

## Main definitions

* `Emission.isReported`.
* `Emission.report`: the requests to the emitters, and what came of them.
-/

namespace Upkeep.Emission

/-- The emitters by name, and how they report. -/
structure Settings where
  /-- Their names in order. -/
  names : List String
  /-- Whether to report that there is nothing to upgrade. -/
  whenUpToDate : Bool
  /-- The time each may take. -/
  limit : Span
  deriving DecidableEq, Repr

/-- Which emitters delivered. -/
structure Summary where
  /-- Those that did. -/
  delivered : List String
  /-- Those that did not, with the reason. -/
  failed : List (String × String)
  deriving DecidableEq, Repr

namespace Summary

/-- No emitter yet. -/
def empty : Summary := ⟨[], []⟩

/-- One more emitter, with what came of it. -/
def add (s : Summary) (name : String) (limit : Span) : Timed (Except EmitError Unit) → Summary
  | .inTime (.ok ()) => { s with delivered := s.delivered ++ [name] }
  | .inTime (.error e) => { s with failed := s.failed ++ [(name, e.message)] }
  | .expired =>
    { s with failed := s.failed ++ [(name, (EmitError.timeout limit.seconds).message)] }

end Summary

/-- Whether a run's result is reported. -/
def isReported (settings : Settings) (r : RunResult) : Bool :=
  match r.outcome with
  | .skipped => false
  | .upToDate => settings.whenUpToDate
  | _ => true

/-- Asks each emitter from an index on to deliver a report. -/
def deliver (limit : Span) (r : RunResult) (report : Report) (s : Summary) :
    (index : Nat) → (names : List String) → Program Summary
  | _, [] => .done s
  | i, name :: names =>
    .ask (.emit i r report limit) fun a =>
      deliver limit r report (s.add name limit a.value) (i + 1) names

/-- Asks each of so many emitters from an index on to withdraw its notices. -/
def withdraw : (index : Nat) → (count : Nat) → Program Summary
  | _, 0 => .done .empty
  | i, n + 1 => .ask (.clear i) fun _ => withdraw (i + 1) n

/-- Reports a result, or withdraws what was reported before. -/
def report (settings : Settings) (r : RunResult) : Program Summary :=
  if r.outcome == .skipped then .done .empty
  else if isReported settings r then
    deliver settings.limit r (Report.render r) .empty 0 settings.names
  else withdraw 0 settings.names.length

end Upkeep.Emission
