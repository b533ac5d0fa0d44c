import Upkeep.Candidate

/-!
# The scope of a run

A scope says which candidates a run considers: all of them, security fixes, security fixes at or
above a severity, or what a given set of advisories names.
-/

namespace Upkeep

/-- Which candidates a run considers. -/
inductive Scope where
  /-- Every candidate. -/
  | all
  /-- Security fixes. -/
  | security
  /-- Security fixes at or above a severity. -/
  | severity (least : Severity)
  /-- What the named advisories fix. The names are sorted and not repeated. -/
  | advisories (ids : List String)
  deriving DecidableEq, Repr

namespace Scope

/-- Inserts a name into a sorted list without repeats. -/
def insertId (id : String) : List String → List String
  | [] => [id]
  | x :: xs => if id < x then id :: x :: xs else if id == x then x :: xs else x :: insertId id xs

/-- The scope of a set of advisories given as a list. -/
def ofAdvisories (ids : List String) : Scope := .advisories (ids.foldr insertId [])

/-- Whether a candidate is in the scope. -/
def matches? (scope : Scope) (c : Candidate) : Bool :=
  match scope with
  | .all => true
  | .security => c.isSecurity
  | .severity least =>
    c.isSecurity && (match c.severity with
      | some s => least.rank ≤ s.rank
      | none => false)
  | .advisories ids =>
    match c.advisory with
    | some a => ids.contains a.id
    | none => false

/-- The scope in messages. -/
def text : Scope → String
  | .all => "all"
  | .security => "security"
  | .severity least => "security (>= " ++ least.name ++ ")"
  | .advisories ids => "advisories [" ++ ", ".intercalate ids ++ "]"

end Scope

end Upkeep
