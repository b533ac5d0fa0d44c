import Upkeep.Json.Loose
import Upkeep.Rehearsal.Script
import Upkeep.Scope

/-!
# Written scripts

Scripts as people write them: an object whose members say what the collaborators do, each of
which may be left out. Candidates are written in full, or by the name and repository of an
upgrade whose artifact matches.

## Main definitions

* `Rehearsal.Flaw`: what can be wrong with a script.
* `Rehearsal.readScript`, `Rehearsal.readCandidate`.
-/

namespace Upkeep.Rehearsal

/-- What can be wrong with a script. -/
inductive Flaw where
  /-- A value is none of those it can be. -/
  | value
  /-- A time cannot be read. -/
  | time
  deriving DecidableEq, Repr

/-- A value that must be there. -/
def need {α : Type} (flaw : Flaw) : Option α → Except Flaw α
  | some a => .ok a
  | none => .error flaw

/-- A candidate. -/
def readCandidate (j : Json) : Option Candidate :=
  match j.member? "fake" with
  | none => Candidate.ofJson j
  | some f => do
    let name ← f.textAt? "name"
    let repository ← f.textAt? "repo"
    match f.textAt? "advisory" with
    | none => some (candidate name repository none)
    | some id =>
      match f.part "severity" with
      | .null => some (candidate name repository (some ⟨id, .security, none⟩))
      | s =>
        (Severity.ofJson s).map fun s => candidate name repository (some ⟨id, .security, some s⟩)

/-- The candidates of a member. -/
def readCandidates (j : Json) (name : String) : Except Flaw (List Candidate) :=
  need .value ((j.listAt name).mapM readCandidate)

/-- A scope. -/
def readScope (j : Json) : Except Flaw Scope :=
  match j.textAt "kind" with
  | "security" => .ok .security
  | "severity" => need .value ((Severity.ofJson (j.part "min")).map .severity)
  | "advisories" => .ok (Scope.ofAdvisories (j.textsAt "ids"))
  | _ => .ok .all

/-- A time of a member. -/
def readTime (j : Json) (name : String) : Except Flaw Instant :=
  need .time ((j.textAt? name).bind Instant.parse)

/-- A failure to fetch. -/
def readFetchError (j : Json) : FetchError :=
  if j.textAt "kind" == "transient" then .transient (j.textAt "text")
  else .permanent (j.textAt "text")

/-- A failed transaction. -/
def readTransactionError (j : Json) : TransactionError :=
  match j.textAt "kind" with
  | "rejected" => .rejected (j.textAt "text")
  | "executor" => .executor (j.textAt "text")
  | _ => .timeout ⟨j.natAt "secs" 0 * Span.perSecond + j.natAt "nanos" 0⟩

/-- A failure to emit. -/
def readEmitError (j : Json) : EmitError :=
  match j.textAt "kind" with
  | "io" => .io (j.textAt "text")
  | "mail" => .mail (j.textAt "text")
  | "config" => .config (j.textAt "text")
  | "command" => .command (j.textAt "command") (j.textAt "text")
  | _ => .timeout (j.natAt "secs" 0)

/-- How fetches go. -/
def readFetch (j : Json) : FetchScript :=
  match j.textAt "kind" with
  | "transient_then_ok" => .transientThenOk (j.natAt "n" 0)
  | "always_transient" => .alwaysTransient
  | "permanent" => .permanent
  | "wrong_content" => .wrongContent
  | "hang" => .hang
  | "ghost" => .ghost
  | "content" => .content (String.join (List.replicate (j.natAt "repeat" 1) (j.textAt "text"))).toUTF8
  | _ => .ok

/-- A repository; the age of its metadata counts back from a time. -/
def readRepository (time : Instant) (j : Json) : Except Flaw RepositoryScript := do
  let refresh : RefreshScript := match j.textAt "refresh" with
    | "fail" => .fail
    | "hang" => .hang
    | _ => .ok
  let lastRefreshed ← match j.part "last_refreshed", j.part "age_secs" with
    | .null, .null => .ok none
    | .null, _ =>
      .ok (if refresh == .fail then none else some (time.minusSeconds (j.intAt "age_secs")))
    | _, _ => (readTime j "last_refreshed").map some
  .ok ⟨⟨j.textAt "id", lastRefreshed⟩, refresh⟩

/-- The calls at which a run can be cancelled. -/
def callSites : List (String × CallSite) :=
  [("repositories", .repositories), ("refresh", .refresh), ("query", .query), ("fetch", .fetch),
    ("apply", .apply), ("network", .network), ("reboot_check", .rebootCheck)]

/-- Where a run is cancelled. -/
def readCancellation (j : Json) : List Cancellation :=
  match callSites.lookup ((j.part "cancel").textAt "at") with
  | some site => [⟨site, (j.part "cancel").boolAt "hang"⟩]
  | none => []

/-- An emitter; `motd_file` keeps the notice at a path. -/
def readEmitter (notice : String) (j : Json) : EmitterScript :=
  let failure (name : String) : Option EmitError := match j.part name with
    | .null => none
    | e => some (readEmitError e)
  if j.textAt "name" == "motd_file" then .notice notice
  else .recorder (j.textAt "name") (failure "error") (j.boolAt "hang") (failure "clear_error")

/-- A script, from what the package manager and the host do and the emitters. -/
def readScript (time : Instant) (manager host : Json) (emitters : List EmitterScript) :
    Except Flaw Script := do
  let repositories ← (manager.listAt "repos").mapM (readRepository time)
  let candidates ← readCandidates manager "candidates"
  .ok {
    repositories := repositories
    listingFailure := manager.textAt? "repositories_error"
    candidates := candidates
    unfiltered := manager.boolAt "query_unfiltered"
    queryFailure := manager.textAt? "query_error"
    queryHangs := manager.boolAt "query_hang"
    fetches := (manager.part "fetch").members.map fun (name, f) => (name, readFetch f)
    fetchMillis := manager.natAt "fetch_delay_ms" 0
    applyFailure := match manager.part "apply" with
      | .null => none
      | e => some (readTransactionError e)
    applyMillis := manager.natAt "apply_delay_ms" 0
    cancellation := readCancellation manager ++ readCancellation host
    offlineLooks := host.natAt "online_after" 0
    rebootPackages := host.textsAt "reboot_packages"
    rebootCheckFailure := host.textAt? "reboot_check_error"
    rebootFails := host.boolAt "reboot_fails"
    emitters := emitters }

end Upkeep.Rehearsal
