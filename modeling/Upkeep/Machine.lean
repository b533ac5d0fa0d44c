import Upkeep.Command
import Upkeep.Lock
import Upkeep.Mail.Delivery
import Upkeep.Web

/-!
# A machine

What a run changes on the machine it runs on: files and the locks on them, the commands that were
run, what was printed, the mail that went out, and the time that has passed.

A command may have a limit of its own. Besides, all that is being done may have a deadline, and
may have to yield when the run is cancelled; once it is past its deadline or has yielded it is
abandoned, and nothing more is run. A limit that ends together with the deadline comes first.

## Main definitions

* `Surroundings`: what a machine finds around it.
* `Machine`, `Machine.execute`.
* `Machine.attempt`: something that has a deadline and yields.
-/

namespace Upkeep

/-- What a machine finds around it. -/
structure Surroundings where
  /-- The programs. -/
  programs : Programs
  /-- The web. -/
  web : String → Web.Reply
  /-- The mail server. -/
  mail : Mail.Server

/-- The state of a machine. -/
structure Machine where
  /-- The files and the locks on them. -/
  lock : Lock.State
  /-- The commands that were run, the latest first. -/
  log : List Command := []
  /-- What was printed. -/
  output : String := ""
  /-- What was printed about errors. -/
  errors : String := ""
  /-- The mail that went out, the latest first. -/
  sent : List Mail := []
  /-- Nanoseconds that have passed. -/
  elapsed : Nat := 0
  /-- When what is being done is abandoned. -/
  deadline : Option Nat := none
  /-- Whether what is being done yields when the run is cancelled. -/
  yields : Bool := false
  /-- Whether what was being done is abandoned. -/
  abandoned : Bool := false
  /-- Whether the run is cancelled. -/
  cancelled : Bool := false

namespace Machine

/-- The files. -/
def files (m : Machine) : Files := m.lock.files

/-- Other files. -/
def withFiles (m : Machine) (fs : Files) : Machine := { m with lock := { m.lock with files := fs } }

/-- A machine with some files, on which nothing has been done yet. -/
def start (fs : Files) : Machine := { lock := ⟨fs, []⟩ }

/-- Whether a time is past the deadline. -/
def isPast (m : Machine) (time : Nat) : Bool :=
  match m.deadline with
  | some deadline => deadline < time
  | none => false

/-- Whether a time is at the deadline or past it. -/
def isReached (m : Machine) (time : Nat) : Bool :=
  match m.deadline with
  | some deadline => deadline ≤ time
  | none => false

/-- What is being done is abandoned, at the deadline unless it was before. -/
def abandon (m : Machine) : Machine :=
  { m with elapsed := max m.elapsed (m.deadline.getD m.elapsed), abandoned := true }

/-- A file with some content, in a directory that is created. -/
def place (m : Machine) (path : String) (content : ByteArray) : Machine :=
  m.withFiles (m.files.perform (Files.placing path content)).1

/-- What is there once a program has ended. -/
def finish (m : Machine) (conduct : Conduct) : Machine :=
  conduct.files.foldl (fun m (path, content) => m.place path content) m

/-- A program that was started, up to its end or its limit. Running out of time takes no more
than coming to the very end of it. -/
def await (conduct : Conduct) (limit : Option Span) (m : Machine) : Command.Ending × Machine :=
  if m.yields && conduct.cancels then (.expired, { m with abandoned := true })
  else
    match limit.filter (fun l => l.nanos ≤ conduct.span.nanos) with
    | some limit =>
      let time := m.elapsed + limit.nanos
      if m.isPast time then (.expired, m.abandon) else (.expired, { m with elapsed := time })
    | none =>
      let time := m.elapsed + conduct.span.nanos
      if m.isReached time then (.expired, m.abandon)
      else
        (.over conduct.status conduct.output conduct.errors,
          { m with elapsed := time }.finish conduct)

/-- Why a program that is missing cannot be started. A name with a slash is a path; any other one
is looked for in the directories of programs. -/
def refusal (fs : Files) (program : String) : IoCause :=
  if program.toList.contains '/' then
    match fs.look program with
    | .error cause => cause
    | .ok _ => .notPermitted
  else if program == "." || program == ".." then .notPermitted
  else if Files.longestName < program.utf8ByteSize then .tooLong
  else .notFound

/-- Runs a command. -/
def execute (around : Surroundings) (c : Command) (limit : Option Span) (m : Machine) :
    Command.Ending × Machine :=
  if m.abandoned then (.expired, m)
  else if !c.isPassable then (.refused "nul byte found in provided data", m)
  else
    match around.programs c with
    | none => (.refused (refusal m.files c.program).text, m)
    | some conduct =>
      await conduct limit
        { m with log := c :: m.log, cancelled := m.cancelled || conduct.cancels }

/-- Does something that may have a limit, and that may yield when the run is cancelled. Answers
nothing when it was abandoned. -/
def attempt {α : Type} (limit : Option Span) (yields : Bool) (work : Machine → α × Machine)
    (m : Machine) : Option α × Machine :=
  let (value, after) := work { m with
    deadline := limit.map fun l => m.elapsed + l.nanos
    yields := yields
    abandoned := false }
  (if after.abandoned then none else some value,
    { after with deadline := none, yields := false, abandoned := false })

end Machine

end Upkeep
