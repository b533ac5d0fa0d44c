import Upkeep.RunResult

/-!
# What collaborators report

The causes a run distinguishes when something it asked for did not work, each with the one message
it has everywhere. What a cause does to a run is decided by the stage that meets it.

## Main definitions

* `FetchError`, `TransactionError`, `EmitError`, `RunError`.
-/

namespace Upkeep

/-- An artifact could not be fetched. -/
inductive FetchError where
  /-- Worth another attempt. -/
  | transient (detail : String)
  /-- Another attempt will not help. -/
  | permanent (detail : String)
  deriving DecidableEq, Repr

namespace FetchError

/-- Whether another attempt may help. -/
def isTransient : FetchError → Bool
  | .transient _ => true
  | .permanent _ => false

/-- The message. -/
def message : FetchError → String
  | .transient detail => "transient fetch failure: " ++ detail
  | .permanent detail => "fetch failed: " ++ detail

end FetchError

/-- A transaction did not go through. -/
inductive TransactionError where
  /-- The package manager refused it; nothing is installed. -/
  | rejected (detail : String)
  /-- It was given up on while it may still go through. -/
  | timeout (limit : Span)
  /-- The package manager could not be run. -/
  | executor (detail : String)
  deriving DecidableEq, Repr

namespace TransactionError

/-- Whether what is installed may have changed. -/
def stateUnknown : TransactionError → Bool
  | .timeout _ => true
  | _ => false

/-- The message. -/
def message : TransactionError → String
  | .rejected detail => "transaction rejected: " ++ detail
  | .timeout limit => "transaction did not finish within " ++ limit.text
  | .executor detail => "transaction executor unavailable: " ++ detail

end TransactionError

/-- An emitter did not deliver. -/
inductive EmitError where
  /-- A file operation failed. -/
  | io (detail : String)
  /-- A command failed. -/
  | command (line detail : String)
  /-- The mail was not accepted. -/
  | mail (detail : String)
  /-- The emitter's settings are wrong. -/
  | config (detail : String)
  /-- It took too long. -/
  | timeout (seconds : Nat)
  deriving DecidableEq, Repr

/-- The message. -/
def EmitError.message : EmitError → String
  | .io detail => "I/O error: " ++ detail
  | .command line detail => "command '" ++ line ++ "' failed: " ++ detail
  | .mail detail => "mail delivery failed: " ++ detail
  | .config detail => "invalid emitter configuration: " ++ detail
  | .timeout seconds => "timed out after " ++ toString seconds ++ "s"

/-- A stage could not be finished. -/
inductive RunError where
  /-- No repository has usable metadata. -/
  | metadataUnavailable (detail : String)
  /-- The upgrades could not be queried. -/
  | query (detail : String)
  /-- The run was cancelled. -/
  | interrupted
  deriving DecidableEq, Repr

namespace RunError

/-- What kind of failure it is. -/
def kind : RunError → FailureKind
  | .metadataUnavailable _ => .metadataUnavailable
  | .query _ => .collaborator
  | .interrupted => .interrupted

/-- The message. -/
def message : RunError → String
  | .metadataUnavailable detail => "repository metadata unavailable: " ++ detail
  | .query detail => "update query failed: " ++ detail
  | .interrupted => "run interrupted"

end RunError

/-- How long a limit was, for messages about it. -/
def timedOut (limit : Span) : String := "timed out after " ++ toString limit.seconds ++ "s"

end Upkeep
