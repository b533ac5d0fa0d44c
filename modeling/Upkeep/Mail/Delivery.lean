import Upkeep.Config
import Upkeep.Mail.Encoding
import Upkeep.Mail.Mailbox

/-!
# Mail and its delivery

A mail is delivered in a dialogue with a mail server: who it is from, each of those it is for, and
its lines. It is delivered when the server takes every one of these; a server that cannot be
reached, or cannot secure the connection as asked, takes none.

## Main definitions

* `Mail`, `Mail.lines`, `Mail.dialogue`.
* `Mail.Server`, `Mail.deliver`.
-/

namespace Upkeep

/-- A mail. -/
structure Mail where
  /-- Who it is from. -/
  sender : Mailbox
  /-- Those it is for. -/
  recipients : List Mailbox
  /-- What it is about. -/
  subject : String
  /-- What it says. -/
  body : String
  deriving DecidableEq, Repr

namespace Mail

/-- A mailbox in a header. -/
def mailboxText (m : Mailbox) : String :=
  match m.name with
  | none => m.address
  | some name =>
    let name := if HeaderText.isPlain name && !name.toList.all Domain.isAtomChar then
        "\"" ++ (name.replace "\\" "\\\\").replace "\"" "\\\"" ++ "\""
      else HeaderText.encode name
    name ++ " <" ++ m.address ++ ">"

/-- The headers, but for the date. -/
def headers (m : Mail) : List (String × String) :=
  [("From", mailboxText m.sender), ("Subject", HeaderText.encode m.subject),
    ("Content-Type", "text/plain; charset=utf-8"),
    ("To", String.intercalate ", " (m.recipients.map mailboxText)),
    ("Content-Transfer-Encoding", (TransferEncoding.choose m.body).name)]

/-- The lines of the mail: its headers, an empty line, and its body. -/
def lines (m : Mail) : List String :=
  m.headers.map (fun (name, value) => name ++ ": " ++ value) ++ [""] ++
    (TransferEncoding.choose m.body).encode m.body

/-- What the server is told before the lines. -/
def dialogue (m : Mail) : List String :=
  ("MAIL FROM:<" ++ m.sender.address ++ ">") ::
    m.recipients.map (fun r => "RCPT TO:<" ++ r.address ++ ">") ++ ["DATA"]

/-- A mail server. -/
inductive Server where
  /-- It does not answer. -/
  | unreachable (reason : String)
  /-- It answers, without a way to secure the connection: whether it takes what it is told. -/
  | speaking (takes : String → Bool)

/-- Delivers a mail; answers why it could not be delivered. -/
def deliver (server : Server) (security : MailSecurity) (m : Mail) : Except String Unit :=
  match server with
  | .unreachable reason => .error ("Connection error: " ++ reason)
  | .speaking takes =>
    if security != .no then .error "Connection error: the connection cannot be secured"
    else
      match ("EHLO" :: m.dialogue).find? (fun said => !takes said) with
      | some said => .error ("permanent error (550): " ++ said)
      | none => .ok ()

end Mail

end Upkeep
