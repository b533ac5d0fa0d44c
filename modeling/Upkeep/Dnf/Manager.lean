import Upkeep.Dnf.Output
import Upkeep.Machine
import Upkeep.Request

/-!
# The package manager

What a run asks of the package manager, as commands of dnf and rpm. Metadata is only fetched when
a repository is refreshed; the query works on what was fetched before, so it sees what the run
vouches for.

Advisories are an addition to the upgrades: when they cannot be listed, the upgrades are what is
left.

A transaction may outlive the wait for it.

## Main definitions

* `Dnf.Manager`.
* `Manager.repositories`, `Manager.refresh`, `Manager.upgrades`, `Manager.apply`.
-/

namespace Upkeep.Dnf

/-- The package manager of a machine. -/
structure Manager where
  /-- The program that manages packages. -/
  program : String := "dnf"
  /-- The program that knows what is installed. -/
  inventory : String := "rpm"
  /-- The directory of the metadata cache. -/
  cache : String := "/var/cache/dnf"
  /-- The time that every command but the transaction may take. -/
  metadataLimit : Span
  /-- The time that a transaction may take. -/
  applyLimit : Span
  deriving DecidableEq, Repr

/-! ### Commands -/

/-- How rpm prints an installed package. -/
def installedFormat : String :=
  "%\x7bNAME\x7d\\t%\x7bARCH\x7d\\t%\x7bEPOCHNUM\x7d:%\x7bVERSION\x7d-%\x7bRELEASE\x7d\\n"

/-- How dnf prints an upgrade. -/
def upgradeFormat : String :=
  "%\x7bname\x7d\\t%\x7barch\x7d\\t%\x7bevr\x7d\\t%\x7brepoid\x7d\\t%\x7blocation\x7d\\t" ++
    "%\x7bchecksum\x7d\\n"

/-- Nothing but the cached metadata of some repositories. -/
def cachedOnly (repositories : List String) : List String :=
  "--cacheonly" :: repositories.flatMap fun id => ["--repo", id]

/-- The arguments that list repositories. -/
def repositoriesArgs : List String := ["repolist", "--enabled", "--quiet"]

/-- The arguments that refresh a repository. -/
def refreshArgs (repository : String) : List String :=
  ["makecache", "--refresh", "--quiet", "--repo", repository]

/-- The arguments that list what is installed. -/
def installedArgs : List String := ["-qa", "--qf", installedFormat]

/-- The arguments that list upgrades. -/
def upgradesArgs (repositories : List String) : List String :=
  ["repoquery", "--upgrades", "--latest-limit=1", "--quiet"] ++ cachedOnly repositories ++
    ["--queryformat", upgradeFormat]

/-- The arguments that list advisories. -/
def advisoriesArgs (repositories : List String) : List String :=
  ["updateinfo", "list", "--updates", "--quiet"] ++ cachedOnly repositories

/-- The arguments that install artifacts. -/
def applyArgs (paths : List String) : List String :=
  ["upgrade", "--assumeyes", "--quiet"] ++ paths

/-- What a program complained about, without blanks around it. -/
def complaint (errors : ByteArray) : String := Text.trimString (Text.decodeLossy errors)

/-- Why a command is of no use. -/
inductive CommandFailure where
  /-- It could not be started. -/
  | notStarted (line reason : String)
  /-- It took too long. -/
  | tooSlow (line : String) (limit : Span)
  /-- It did not do what it was asked. -/
  | failed (line : String) (status : ExitStatus) (complaint : String)
  deriving DecidableEq, Repr

namespace CommandFailure

/-- What failed, without the system's reason. -/
def outline : CommandFailure → String
  | .notStarted line _ => "Failed to execute `" ++ line ++ "`"
  | .tooSlow line limit => "`" ++ line ++ "` " ++ timedOut limit
  | .failed line status complaint =>
    "`" ++ line ++ "` exited with " ++ status.text ++ ": " ++ complaint

/-- The whole message. -/
def message (f : CommandFailure) : String :=
  match f with
  | .notStarted _ reason => f.outline ++ ": " ++ reason
  | _ => f.outline

end CommandFailure

/-- What a command printed, or why it is of no use. -/
def outputOf (c : Command) (limit : Span) : Command.Ending → Except CommandFailure String
  | .refused reason => .error (.notStarted c.line reason)
  | .expired => .error (.tooSlow c.line limit)
  | .over status output errors =>
    if status.isSuccess then .ok (Text.decodeLossy output)
    else .error (.failed c.line status (complaint errors))

namespace Manager

/-- Runs a command for its output. -/
def ask (d : Manager) (around : Surroundings) (program : String) (args : List String)
    (m : Machine) : Except CommandFailure String × Machine :=
  let c : Command := { program := program, args := args }
  let (ending, m) := m.execute around c (some d.metadataLimit)
  (outputOf c d.metadataLimit ending, m)

/-! ### Metadata -/

/-- The later of two times. -/
def later (a b : Instant) : Instant := if a.before b then b else a

/-- When the metadata of a repository was last refreshed: the time of the newest among its cache
directories. -/
def refreshedAt (d : Manager) (fs : Files) (repository : String) : Option Instant :=
  let times := ((fs.names d.cache).filter (isCacheDirOf repository)).filterMap fun dir =>
    fs.modified? (Path.join (Path.join d.cache dir) "repodata/repomd.xml")
  match times with
  | [] => none
  | time :: times => some (times.foldl later time)

/-- The enabled repositories. -/
def repositories (d : Manager) (around : Surroundings) (m : Machine) :
    Except String (List Repository) × Machine :=
  match d.ask around d.program repositoriesArgs m with
  | (.error why, m) => (.error why.message, m)
  | (.ok listing, m) =>
    (.ok ((parseRepositories listing).map fun id => ⟨id, d.refreshedAt m.files id⟩), m)

/-- Fetches the metadata of a repository. -/
def refresh (d : Manager) (around : Surroundings) (repository : String) (m : Machine) :
    Except String Unit × Machine :=
  match d.ask around d.program (refreshArgs repository) m with
  | (.error why, m) => (.error why.message, m)
  | (.ok _, m) => (.ok (), m)

/-! ### Upgrades -/

/-- An upgrade with the version it replaces. -/
def withInstalled (installed : List Installed) (c : Candidate) : Candidate :=
  { c with oldVersion := installedVersion installed c.name c.arch }

/-- The upgrades that repositories offer; no repositories offer none. -/
def upgrades (d : Manager) (around : Surroundings) (repositories : List String) (m : Machine) :
    Except String (List Candidate) × Machine :=
  if repositories.isEmpty then (.ok [], m)
  else
    match d.ask around d.inventory installedArgs m with
    | (.error why, m) => (.error ("Failed to list installed packages: " ++ why.message), m)
    | (.ok installed, m) =>
      match d.ask around d.program (upgradesArgs repositories) m with
      | (.error why, m) => (.error ("Failed to query available upgrades: " ++ why.message), m)
      | (.ok listing, m) =>
        let found := (parseUpgrades listing).map (withInstalled (parseInstalled installed))
        match d.ask around d.program (advisoriesArgs repositories) m with
        | (.error _, m) => (.ok found, m)
        | (.ok advisories, m) => (.ok (attachAdvisories found (parseAdvisories advisories)), m)

/-! ### The transaction -/

/-- The last lines of a complaint, at most five. -/
def lastLines (errors : ByteArray) : String :=
  let lines := Text.lines (Text.decodeLossy errors).toList
  String.intercalate " | " ((lines.drop (lines.length - 5)).map String.ofList)

/-- What came of a transaction. -/
def transactionOf (limit : Span) : Command.Ending → Except TransactionError Unit
  | .refused reason => .error (.executor reason)
  | .expired => .error (.timeout limit)
  | .over status _ errors =>
    if status.isSuccess then .ok ()
    else .error (.rejected ("dnf exited with " ++ status.text ++ ": " ++ lastLines errors))

/-- Installs artifacts as one transaction. -/
def apply (d : Manager) (around : Surroundings) (paths : List String) (m : Machine) :
    Except TransactionError Unit × Machine :=
  let c : Command := { program := d.program, args := applyArgs paths }
  let (ending, m) := m.execute around c (some d.applyLimit)
  (transactionOf d.applyLimit ending, m)

end Manager

end Upkeep.Dnf
