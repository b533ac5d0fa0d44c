import Upkeep.Dnf.Manager

/-!
# Fetching an artifact

Where an artifact comes from depends on its location: an address on the web, a path on this
machine, or, for everything else, the repository, by way of dnf. From the first two it is put at
the artifact's own name; dnf names it itself, without the epoch.

## Main definitions

* `Dnf.Source`: where an artifact comes from.
* `Manager.fetch`.
-/

namespace Upkeep.Dnf

/-- Where an artifact comes from. -/
inductive Source where
  /-- An address on the web. -/
  | web (address : String)
  /-- A path on this machine. -/
  | machine (path : String)
  /-- The repository. -/
  | repository
  deriving DecidableEq, Repr

/-- Where a candidate's artifact comes from. -/
def sourceOf (c : Candidate) : Source :=
  match c.location with
  | none => .repository
  | some location =>
    if Web.isAddress location then .web location
    else if location.startsWith "/" then .machine location
    else .repository

/-- The version of a package as a file of the repository names it. -/
def fileStem (c : Candidate) : String := c.name ++ "-" ++ dropEpoch c.newVersion ++ "." ++ c.arch

/-- The arguments that download an artifact. -/
def downloadArgs (c : Candidate) (dir : String) : List String :=
  ["download", "--quiet", "--repo", c.repo, "--destdir", dir,
    c.name ++ "-" ++ c.newVersion ++ "." ++ c.arch]

/-- Saves what the web answers. What arrived before an answer broke off stays. -/
def save (address path : String) (reply : Web.Reply) (fs : Files) :
    Except FetchError Unit × Files :=
  match reply with
  | .unanswered reason => (.error (.transient (address ++ ": " ++ reason)), fs)
  | .answered status body breakOff =>
    if Web.isSuccess status then
      match fs.perform (Files.writing path body) with
      | (fs, some cause) =>
        (.error (.permanent ("cannot write " ++ path ++ ": " ++ cause.text)), fs)
      | (fs, none) =>
        match breakOff with
        | some reason => (.error (.transient (address ++ ": " ++ reason)), fs)
        | none => (.ok (), fs)
    else
      let said := address ++ " returned " ++ Web.statusText status
      (.error (if Web.mayPass status then .transient said else .permanent said), fs)

namespace Manager

/-- Fetches an artifact from the web. -/
def fetchFromWeb (around : Surroundings) (address path : String) (m : Machine) :
    Except FetchError String × Machine :=
  let (result, fs) := save address path (around.web address) m.files
  (result.map fun () => path, m.withFiles fs)

/-- Fetches an artifact from this machine. -/
def fetchFromMachine (source path : String) (m : Machine) :
    Except FetchError String × Machine :=
  match m.files.perform [.copy source path] with
  | (fs, none) => (.ok path, m.withFiles fs)
  | (fs, some cause) =>
    (.error (.permanent ("cannot copy " ++ source ++ ": " ++ cause.text)), m.withFiles fs)

/-- Fetches an artifact from its repository. -/
def fetchFromRepository (d : Manager) (around : Surroundings) (c : Candidate) (dir : String)
    (m : Machine) : Except FetchError String × Machine :=
  match d.ask around d.program (downloadArgs c dir) m with
  | (.error why, m) => (.error (.transient why.outline), m)
  | (.ok _, m) =>
    let path := Path.join dir (fileStem c ++ ".rpm")
    if m.files.isThere path then (.ok path, m)
    else (.error (.permanent ("dnf download produced no " ++ path)), m)

/-- Fetches a candidate's artifact into a directory, which is created. -/
def fetch (d : Manager) (around : Surroundings) (c : Candidate) (dir : String) (m : Machine) :
    Except FetchError String × Machine :=
  match m.files.createDirs dir with
  | (fs, some cause) =>
    (.error (.permanent ("cannot create " ++ dir ++ ": " ++ cause.text)), m.withFiles fs)
  | (fs, none) =>
    let m := m.withFiles fs
    match sourceOf c with
    | .web address => fetchFromWeb around address (Path.join dir c.artifactFileName) m
    | .machine source => fetchFromMachine source (Path.join dir c.artifactFileName) m
    | .repository => d.fetchFromRepository around c dir m

end Manager

end Upkeep.Dnf
