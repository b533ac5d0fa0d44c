import Upkeep.Files
import Upkeep.Time.Span

/-!
# Commands

The package tools, the shell and the system log are programs of their own. A command says which
program is run, with which arguments, and what it reads. What the program does is all that the
rest of the project knows of it: how long it takes, how it ends, what it prints and which files it
creates.

A program ends with a code, or a signal ends it. Messages name both.

## Main definitions

* `Command`, `Command.line`.
* `ExitStatus`, `ExitStatus.text`.
* `Conduct`, `Programs`: what programs do.
* `Command.Ending`: what comes of a command.
-/

namespace Upkeep

/-- A program to run. -/
structure Command where
  /-- The program. -/
  program : String
  /-- Its arguments. -/
  args : List String
  /-- What it reads. -/
  input : String := ""
  deriving DecidableEq, Repr

namespace Command

/-- The command as messages show it: nothing is quoted. -/
def line (c : Command) : String := c.program ++ " " ++ String.intercalate " " c.args

/-- A command line for the shell. -/
def shell (line input : String) : Command :=
  { program := "sh", args := ["-c", line], input := input }

/-- Whether the system can be given the command: a null character would end an argument. -/
def isPassable (c : Command) : Bool := (c.program :: c.args).all fun s => !s.contains '\x00'

end Command

/-- How a program ended. -/
inductive ExitStatus where
  /-- With a code. -/
  | code (n : Nat)
  /-- By a signal. -/
  | signal (n : Nat)
  deriving DecidableEq, Repr

namespace ExitStatus

/-- The signals from the first one on. -/
def signalNames : List String :=
  ["SIGHUP", "SIGINT", "SIGQUIT", "SIGILL", "SIGTRAP", "SIGABRT", "SIGBUS", "SIGFPE", "SIGKILL",
    "SIGUSR1", "SIGSEGV", "SIGUSR2", "SIGPIPE", "SIGALRM", "SIGTERM", "SIGSTKFLT", "SIGCHLD",
    "SIGCONT", "SIGSTOP", "SIGTSTP", "SIGTTIN", "SIGTTOU", "SIGURG", "SIGXCPU", "SIGXFSZ",
    "SIGVTALRM", "SIGPROF", "SIGWINCH", "SIGIO", "SIGPWR", "SIGSYS"]

/-- The name of a signal, when it has one. -/
def signalName? (n : Nat) : Option String := if n == 0 then none else signalNames[n - 1]?

/-- Whether the program did what it was asked. -/
def isSuccess (s : ExitStatus) : Bool := s == .code 0

/-- The status for messages. -/
def text : ExitStatus → String
  | .code n => "exit status: " ++ toString n
  | .signal n =>
    "signal: " ++ toString n ++ match signalName? n with
      | some name => " (" ++ name ++ ")"
      | none => ""

end ExitStatus

/-- What a program does when it is run. -/
structure Conduct where
  /-- How long it takes. -/
  span : Span := ⟨0⟩
  /-- How it ends. -/
  status : ExitStatus := .code 0
  /-- What it prints. -/
  output : ByteArray := .empty
  /-- What it complains about. -/
  errors : ByteArray := .empty
  /-- The files it creates. -/
  files : List (String × ByteArray) := []
  /-- Whether it has the run that started it cancelled, right at its start. -/
  cancels : Bool := false

/-- What programs do; there are no others. -/
abbrev Programs := Command → Option Conduct

/-- What comes of a command. -/
inductive Command.Ending where
  /-- The program could not be started. -/
  | refused (reason : String)
  /-- It was given up on. -/
  | expired
  /-- It ended. -/
  | over (status : ExitStatus) (output errors : ByteArray)

end Upkeep
