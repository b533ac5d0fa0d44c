import Upkeep.Config
import Upkeep.Errors
import Upkeep.Machine
import Upkeep.Report
import Upkeep.Text.ShellWord
import Upkeep.Text.Template

/-!
# Reports for commands of the shell

A report is handed to a command line of the user's: parts of the report stand in the line, and a
text with parts of the report is what the command reads. In the line every value is one word of
the shell, so nothing a report says can change what is run; in the text values stand as they are.

A command that mails the report also knows who the mail is from and for.

## Main definitions

* `CommandConfig.line`, `CommandConfig.input`.
* `CommandEmailConfig.line`, `CommandEmailConfig.input`.
* `ShellCommand.run`.
-/

namespace Upkeep

namespace CommandConfig

/-- The names and values for the line. -/
def words (report : Report) : List (String × String) :=
  [("title", ShellWord.quote report.title), ("body", ShellWord.quote report.body)]

/-- The command line. -/
def line (c : CommandConfig) (report : Report) : String :=
  Template.fill c.commandFormat (words report)

/-- What the command reads. -/
def input (c : CommandConfig) (report : Report) : String :=
  Template.fill c.stdinFormat [("title", report.title), ("body", report.body)]

end CommandConfig

namespace CommandEmailConfig

/-- The names and values for the line: one word for each recipient. -/
def words (c : CommandEmailConfig) (report : Report) : List (String × String) :=
  [("subject", ShellWord.quote report.title), ("body", ShellWord.quote report.body),
    ("email_from", ShellWord.quote c.emailFrom),
    ("email_to", String.intercalate " " (c.emailTo.map ShellWord.quote))]

/-- The command line. -/
def line (c : CommandEmailConfig) (report : Report) : String :=
  Template.fill c.commandFormat (c.words report)

/-- What the command reads. -/
def input (c : CommandEmailConfig) (report : Report) : String :=
  Template.fill c.stdinFormat [("subject", report.title), ("body", report.body),
    ("email_from", c.emailFrom), ("email_to", String.intercalate ", " c.emailTo)]

end CommandEmailConfig

namespace ShellCommand

/-- What came of a command line. -/
def outcome (line : String) : Command.Ending → Except EmitError Unit
  | .refused reason => .error (.io reason)
  | .expired => .error (.command line "given up on")
  | .over status _ errors =>
    if status.isSuccess then .ok ()
    else
      .error (.command line
        (status.text ++ " " ++ Text.trimString (Text.decodeLossy errors)))

/-- Runs a command line with something to read. -/
def run (around : Surroundings) (line input : String) (m : Machine) :
    Except EmitError Unit × Machine :=
  let (ending, m) := m.execute around (.shell line input) none
  (outcome line ending, m)

end ShellCommand

end Upkeep
