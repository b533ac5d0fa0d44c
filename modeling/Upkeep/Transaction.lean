import Upkeep.Program

/-!
# The transaction

All verified artifacts are installed as one transaction. Unless it succeeds, nothing counts as
applied; a transaction that was given up on may still go through, so what is installed is then
not known.

## Main definitions

* `Transaction.apply`.
-/

namespace Upkeep.Transaction

/-- Installs artifacts as one transaction; answers what was applied. Without artifacts there is
no transaction. -/
def apply (artifacts : List Artifact) (limit : Span) :
    Program (Except TransactionError (List Candidate)) :=
  if artifacts.isEmpty then .done (.ok [])
  else
    .ask (.apply artifacts limit) fun a =>
      .done <| match a.value with
        | .expired => .error (.timeout limit)
        | .inTime (.error e) => .error e
        | .inTime (.ok ()) => .ok (artifacts.map Artifact.candidate)

end Upkeep.Transaction
