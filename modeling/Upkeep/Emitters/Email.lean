import Upkeep.Errors
import Upkeep.Machine
import Upkeep.Report

/-!
# Reports by mail

A report as a mail of its own. The mailboxes are read when the emitter is set up, so a run with
an address that is none does not start.

## Main definitions

* `Email`, `Email.ofConfig`.
* `Email.send`.
-/

namespace Upkeep

/-- Who reports are from and for, and how the mail is secured. -/
structure Email where
  /-- The sender. -/
  sender : Mailbox
  /-- The recipients. -/
  recipients : List Mailbox
  /-- How the connection is secured. -/
  security : MailSecurity
  deriving DecidableEq, Repr

namespace Email

/-- The mailbox that a setting names. -/
def mailbox (setting text : String) : Except EmitError Mailbox :=
  match Mailbox.parse text with
  | .ok m => .ok m
  | .error flaw => .error (.config (setting ++ " '" ++ text ++ "': " ++ flaw.message))

/-- The mailboxes that a setting names, up to the first that is none. -/
def mailboxes (setting : String) : List String → Except EmitError (List Mailbox)
  | [] => .ok []
  | text :: texts =>
    match mailbox setting text with
    | .error e => .error e
    | .ok m => (mailboxes setting texts).map (m :: ·)

/-- The emitter for some settings. -/
def ofConfig (c : EmailConfig) : Except EmitError Email :=
  match mailbox "email_from" c.emailFrom with
  | .error e => .error e
  | .ok sender =>
    match mailboxes "email_to" c.emailTo with
    | .error e => .error e
    | .ok recipients =>
      if recipients.isEmpty then .error (.config "email_to is empty")
      else .ok ⟨sender, recipients, c.emailTls⟩

/-- The mail with a report. -/
def mail (e : Email) (report : Report) : Mail :=
  ⟨e.sender, e.recipients, report.title, report.body⟩

/-- Mails a report. -/
def send (e : Email) (around : Surroundings) (report : Report) (m : Machine) :
    Except EmitError Unit × Machine :=
  match Mail.deliver around.mail e.security (e.mail report) with
  | .ok () => (.ok (), { m with sent := e.mail report :: m.sent })
  | .error reason => (.error (.mail reason), m)

end Email

end Upkeep
