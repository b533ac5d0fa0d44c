import Upkeep.Config
import Upkeep.Download.Backoff
import Upkeep.Request

/-!
# The download of one candidate

Fetch, check, and either keep the artifact or remove it. A failure that may pass is tried again
after a rest, up to the limit of attempts; running out of time is such a failure. What comes of
the check is final: an artifact that does not match its checksum is removed and not fetched again.

A task says which piece of work is next, and what comes of that piece decides how it goes on. It
depends on nothing but its own candidate's answers.

## Main definitions

* `Download.Task`, `Task.job`, `Task.advance`.
* `Download.Rejection`: why a candidate has no artifact.
-/

namespace Upkeep.Download

/-- Why a candidate has no artifact, and after how many attempts. -/
structure Rejection where
  /-- The reason. -/
  reason : String
  /-- The attempts that were made. -/
  attempts : Nat
  deriving DecidableEq, Repr

/-- What comes of a download: where the artifact is, or why there is none. -/
abbrev Outcome := Except Rejection String

/-- Where a download stands. -/
inductive Task where
  /-- The artifact is fetched. -/
  | fetching (attempt : Nat)
  /-- The next attempt is some time off. -/
  | resting (attempt : Nat)
  /-- The artifact is checked. -/
  | checking (attempt : Nat) (path : String) (expected : Checksum)
  /-- The artifact is removed. -/
  | discarding (attempt : Nat) (path : String) (reason : String)
  deriving DecidableEq, Repr

/-- What a download comes to next. -/
inductive Progress where
  /-- There is more to do. -/
  | more (task : Task)
  /-- It is finished. -/
  | finished (outcome : Outcome)

namespace Task

/-- The attempts that are made at most. -/
def mostAttempts (d : DownloadConfig) : Nat := max d.maxAttempts 1

/-- The time an attempt may take. -/
def limit (d : DownloadConfig) : Span := Span.ofSeconds d.timeoutSecs

/-- The piece of work that is next. -/
def job (d : DownloadConfig) (c : Candidate) : Task → Job
  | .fetching _ => .fetch c d.cacheDir (limit d)
  | .resting attempt => .rest (Backoff.delay attempt d.backoffBaseMs d.backoffMaxMs)
  | .checking _ path expected => .digest path expected.algorithm
  | .discarding _ path _ => .discard path

/-- After an attempt failed: another one when that may help and is allowed. -/
def afterFailure (d : DownloadConfig) (attempt : Nat) (e : FetchError) : Progress :=
  if e.isTransient && attempt < mostAttempts d then .more (.resting attempt)
  else .finished (.error ⟨e.message, attempt⟩)

/-- After an artifact arrived: it is checked, which needs a checksum to check against. -/
def afterArrival (c : Candidate) (attempt : Nat) (path : String) : Progress :=
  .more <| match c.checksum with
    | none => .discarding attempt path "no checksum in repository metadata"
    | some expected => .checking attempt path expected

/-- Whether a digest is the expected one; letter case does not matter. -/
def isExpected (expected : Checksum) (digest : String) : Bool :=
  Text.lowerAscii digest == Text.lowerAscii expected.digest

/-- After the artifact's digest was taken. -/
def afterCheck (attempt : Nat) (path : String) (expected : Checksum) :
    Except String String → Progress
  | .error cause => .more (.discarding attempt path ("cannot read " ++ path ++ ": " ++ cause))
  | .ok digest =>
    if isExpected expected digest then .finished (.ok path)
    else .more (.discarding attempt path
      ("checksum mismatch: expected " ++ expected.digest ++ ", got " ++ digest))

/-- How a download goes on. -/
def advance (d : DownloadConfig) (c : Candidate) :
    (task : Task) → (task.job d c).Result → Progress
  | .fetching attempt, .inTime (.ok path) => afterArrival c attempt path
  | .fetching attempt, .inTime (.error e) => afterFailure d attempt e
  | .fetching attempt, .expired => afterFailure d attempt (.transient (timedOut (limit d)))
  | .resting attempt, () => .more (.fetching (attempt + 1))
  | .checking attempt path expected, digest => afterCheck attempt path expected digest
  | .discarding attempt _ reason, () => .finished (.error ⟨reason, attempt⟩)

end Task

end Upkeep.Download
