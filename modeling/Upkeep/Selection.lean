import Upkeep.Scope
import Upkeep.Text.Glob

/-!
# Selecting candidates

From everything the package manager lists, a run considers the candidates whose repository is
usable, whose name no exclusion matches, and which are in scope, in the order of name and
architecture. The sort is stable: candidates of one package stay in the order they came.

An exclusion that is not a pattern excludes nothing.

## Main definitions

* `Selection.wanted`: whether one candidate is selected.
* `Selection.select`: the selected candidates in order.
-/

namespace Upkeep.Selection

/-- The exclusions that are patterns. -/
def patterns (exclude : List String) : List Glob.Pattern := exclude.filterMap Glob.parse

/-- Whether a candidate is selected. -/
def wanted (scope : Scope) (available exclude : List String) (c : Candidate) : Bool :=
  available.contains c.repo && !(patterns exclude).any (fun p => Glob.matchesText p c.name) &&
    scope.matches? c

/-- Whether a candidate may stand before another one. -/
def inOrder (a b : Candidate) : Bool :=
  a.name < b.name || (a.name == b.name && !(b.arch < a.arch))

/-- The selected candidates, by name and architecture. -/
def select (candidates : List Candidate) (scope : Scope) (available exclude : List String) :
    List Candidate :=
  (candidates.filter (wanted scope available exclude)).mergeSort inOrder

end Upkeep.Selection
