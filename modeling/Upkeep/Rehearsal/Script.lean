import Upkeep.Request

/-!
# Scripts

What a rehearsal's collaborators do, laid down in advance: which repositories refresh, what is
offered, how each fetch goes, how the transaction and the emitters end, and at which call the run
is cancelled. A call that hangs never returns.

## Main definitions

* `Script` and its parts.
* `Rehearsal.candidate`, `Rehearsal.artifact`: an upgrade and the artifact that matches it.
-/

namespace Upkeep.Rehearsal

/-- How the refresh of a repository goes. -/
inductive RefreshScript where
  /-- It works. -/
  | ok
  /-- It fails. -/
  | fail
  /-- It never returns. -/
  | hang
  deriving DecidableEq, Repr

/-- A repository. -/
structure RepositoryScript where
  /-- The repository as it is listed. -/
  repository : Repository
  /-- How its refresh goes. -/
  refresh : RefreshScript
  deriving DecidableEq, Repr

/-- How the fetches of a package go. -/
inductive FetchScript where
  /-- The matching artifact arrives. -/
  | ok
  /-- So many fetches fail for now, then the matching artifact arrives. -/
  | transientThenOk (failures : Nat)
  /-- Every fetch fails for now. -/
  | alwaysTransient
  /-- The fetch fails for good. -/
  | permanent
  /-- Another artifact arrives. -/
  | wrongContent
  /-- It never returns. -/
  | hang
  /-- The fetch reports a file that is not there. -/
  | ghost
  /-- A given artifact arrives. -/
  | content (bytes : ByteArray)

/-- The calls at which a run can be cancelled. -/
inductive CallSite where
  /-- The listing of repositories. -/
  | repositories
  /-- A refresh. -/
  | refresh
  /-- The query. -/
  | query
  /-- A fetch. -/
  | fetch
  /-- The transaction. -/
  | apply
  /-- A look for a network. -/
  | network
  /-- The question whether a reboot is needed. -/
  | rebootCheck
  deriving DecidableEq, Repr

/-- The call at which the run is cancelled, and whether that call then hangs. -/
structure Cancellation where
  /-- The call. -/
  site : CallSite
  /-- Whether it hangs. -/
  hang : Bool
  deriving DecidableEq, Repr

/-- An emitter. -/
inductive EmitterScript where
  /-- One that notes what it is asked, and then fails or hangs as it is told. -/
  | recorder (name : String) (failure : Option EmitError) (hang : Bool)
    (clearFailure : Option EmitError)
  /-- One that keeps a notice file. -/
  | notice (path : String)
  deriving DecidableEq, Repr

/-- The name of an emitter. -/
def EmitterScript.name : EmitterScript → String
  | .recorder name .. => name
  | .notice _ => "motd"

/-- What the collaborators do. -/
structure Script where
  /-- The repositories. -/
  repositories : List RepositoryScript := []
  /-- Why they cannot be listed, if so. -/
  listingFailure : Option String := none
  /-- What is offered. -/
  candidates : List Candidate := []
  /-- Whether repositories that were not asked for offer, too. -/
  unfiltered : Bool := false
  /-- Why the query fails, if it does. -/
  queryFailure : Option String := none
  /-- Whether the query hangs. -/
  queryHangs : Bool := false
  /-- How fetches go, by the name of the package. -/
  fetches : List (String × FetchScript) := []
  /-- Milliseconds each fetch takes. -/
  fetchMillis : Nat := 0
  /-- Why the transaction fails, if it does. -/
  applyFailure : Option TransactionError := none
  /-- Milliseconds the transaction takes. -/
  applyMillis : Nat := 0
  /-- Where the run is cancelled. -/
  cancellation : List Cancellation := []
  /-- How many looks find no network. -/
  offlineLooks : Nat := 0
  /-- The packages that need a reboot. -/
  rebootPackages : List String := []
  /-- Why the host cannot say whether a reboot is needed, if so. -/
  rebootCheckFailure : Option String := none
  /-- Whether the reboot command fails. -/
  rebootFails : Bool := false
  /-- The emitters. -/
  emitters : List EmitterScript := []

/-- How the fetches of a package go. -/
def Script.fetchOf (s : Script) (name : String) : FetchScript := (s.fetches.lookup name).getD .ok

/-- The artifact that matches an upgrade. -/
def artifact (c : Candidate) : ByteArray := ("fake-rpm:" ++ c.nevra).toUTF8

/-- An upgrade with the checksum of its artifact. -/
def candidate (name repository : String) (advisory : Option Advisory) : Candidate :=
  let c : Candidate :=
    ⟨name, "x86_64", some "1.0-1.fc40", "1.1-1.fc40", repository, advisory, none, none⟩
  { c with checksum := some (Checksum.sha256 (Digest.hex .sha256 (artifact c))) }

end Upkeep.Rehearsal
