import Upkeep.RunResult

/-!
# Reports

The text every emitter delivers: a title of one line, and a body with the instants, the outcome,
the counts, the reboot recommendation and the lists. A candidate's line ends with what became of
it, decided by its package identity: applied, else downloaded, else failed.

## Main definitions

* `Report`, `Report.render`, `Report.fullText`.
* `Report.summary`: one line for sinks that take no more.
-/

namespace Upkeep

/-- A rendered report. -/
structure Report where
  /-- One line. -/
  title : String
  /-- The rest; every line of it is ended. -/
  body : String
  deriving DecidableEq, Repr

namespace Report

/-- The title. -/
def titleOf (r : RunResult) : String :=
  match r.outcome with
  | .aborted => "Update run failed on " ++ r.systemName
  | .skipped | .upToDate => "No updates on " ++ r.systemName
  | .completed => done
  | .partialFailure => done ++ " (with errors)"
where
  /-- What a run that got to its end did. -/
  done : String :=
    match r.mode with
    | .reportOnly => "Updates available on " ++ r.systemName
    | .downloadOnly => "Updates downloaded on " ++ r.systemName
    | .apply => "Updates applied on " ++ r.systemName

/-- The counts. -/
def counts (r : RunResult) : String :=
  toString r.considered.length ++ " considered, " ++ toString r.downloaded.length ++
    " downloaded, " ++ toString r.applied.length ++ " applied, " ++ toString r.failedCount ++
    " failed"

/-- The reboot recommendation. -/
def rebootText (a : RebootAdvice) : String :=
  if a.recommended then
    "reboot recommended (" ++ a.reason ++ ")" ++ (if a.triggered then ", reboot triggered" else "")
  else "reboot not recommended"

/-- One line for sinks that take no more. -/
def summary (r : RunResult) : String :=
  r.systemName ++ ": " ++ r.outcome.name ++ " (mode " ++ r.mode.name ++ "): " ++ counts r ++
    "; " ++ rebootText r.reboot

/-- A candidate: identity, versions, repository, advisory. -/
def packageText (c : Candidate) : String :=
  c.id.text ++ " " ++ c.oldVersion.getD "(new)" ++ " -> " ++ c.newVersion ++ " [" ++ c.repo ++
    "]" ++
    match c.advisory with
    | none => ""
    | some a =>
      " " ++ a.id ++ " " ++ a.kind.name ++
        match a.severity with
        | none => ""
        | some s => "/" ++ s.name

/-- What became of a candidate. -/
def marker (r : RunResult) (c : Candidate) : String :=
  if r.applied.any (fun d => d.id == c.id) then " (applied)"
  else if r.downloaded.any (fun d => d.id == c.id) then " (downloaded)"
  else if r.failedPackages.any (fun f => f.package == some c.id) then " (failed)"
  else ""

/-- A failure or warning. -/
def failureText (f : FailureRecord) : String :=
  "[" ++ f.stage.name ++ "] " ++
    (match f.package with
      | some p => p.text ++ ": "
      | none => "") ++
    f.reason ++ " (" ++ f.kind.name ++ ")"

/-- The line above the candidates. -/
def candidatesHeader : Mode → String
  | .reportOnly => "The following updates are available:"
  | .downloadOnly => "The following updates were considered for download:"
  | .apply => "The following updates were considered for installation:"

/-- A list under a header, after an empty line; nothing when the list is empty. -/
def listUnder (header : String) (items : List String) : String :=
  if items.isEmpty then ""
  else "\n" ++ header ++ "\n" ++ String.join (items.map (fun i => "  " ++ i ++ "\n"))

/-- The body. -/
def bodyOf (r : RunResult) : String :=
  "Run started:  " ++ r.startedAt.text ++ "\n" ++
    (match r.finishedAt with
      | some instant => "Run finished: " ++ instant.text ++ "\n"
      | none => "") ++
    "Outcome:      " ++ r.outcome.name ++
    (match r.abortKind with
      | some k => " (" ++ k.name ++ ")"
      | none => "") ++ "\n" ++
    "Mode:         " ++ r.mode.name ++ "\n" ++
    "Packages:     " ++ counts r ++ "\n" ++
    "Reboot:       " ++ rebootText r.reboot ++ "\n" ++
    listUnder (candidatesHeader r.mode) (r.considered.map (fun c => packageText c ++ marker r c)) ++
    listUnder "Failures:" (r.failures.map failureText) ++
    listUnder "Warnings:" (r.warnings.map failureText)

/-- Renders the result of a run. -/
def render (r : RunResult) : Report := ⟨titleOf r, bodyOf r⟩

/-- Title and body, an empty line between them. -/
def fullText (p : Report) : String := p.title ++ "\n\n" ++ p.body

end Report

end Upkeep
