import Upkeep.Digest.Sha2
import Upkeep.Json.Record

/-!
# Update candidates

A candidate is one available upgrade of one package: which package, from which version to which,
from which repository, and what the repository says about it. An advisory says why the upgrade
exists, a checksum what its artifact must digest to.

## Main definitions

* `Severity`, `AdvisoryKind`, `Advisory`, `Checksum`, `Candidate`.
* `Candidate.nevra`, `Candidate.artifactFileName`: the names a candidate goes by.
* `Candidate.toJson`, `Candidate.ofJson`: the stored form.
-/

namespace Upkeep

/-! ### Advisories -/

/-- What an advisory is about. -/
inductive AdvisoryKind where
  /-- A security fix. -/
  | security
  /-- A bug fix. -/
  | bugfix
  /-- New or better behaviour. -/
  | enhancement
  /-- A package that was not there before. -/
  | newpackage
  /-- Anything else. -/
  | unknown
  deriving DecidableEq, Repr, Inhabited

namespace AdvisoryKind

/-- The stored name. -/
def name : AdvisoryKind → String
  | .security => "security"
  | .bugfix => "bugfix"
  | .enhancement => "enhancement"
  | .newpackage => "newpackage"
  | .unknown => "unknown"

/-- Every kind. -/
def all : List AdvisoryKind := [.security, .bugfix, .enhancement, .newpackage, .unknown]

/-- Reads a kind as package tools print it, in any case; `Sec.` is how they abbreviate security.
A refusal is the message about it. -/
def parse (s : String) : Except String AdvisoryKind :=
  let lower := Text.lowerAscii s
  if lower == "sec." || lower == "sec" then .ok .security
  else match all.find? (fun k => k.name == lower) with
    | some k => .ok k
    | none => .error ("unknown advisory kind '" ++ lower ++ "'")

/-- Reads the stored name. -/
def ofJson : Json → Option AdvisoryKind := Json.asChoice (all.map (fun k => (k.name, k)))

end AdvisoryKind

/-- How bad the problem a security advisory fixes is. -/
inductive Severity where
  /-- Least severe. -/
  | low
  /-- Above low. -/
  | moderate
  /-- Above moderate. -/
  | important
  /-- Most severe. -/
  | critical
  deriving DecidableEq, Repr, Inhabited

namespace Severity

/-- The stored name. -/
def name : Severity → String
  | .low => "low"
  | .moderate => "moderate"
  | .important => "important"
  | .critical => "critical"

/-- The place in the order from least to most severe. -/
def rank : Severity → Nat
  | .low => 0
  | .moderate => 1
  | .important => 2
  | .critical => 3

/-- Every severity. -/
def all : List Severity := [.low, .moderate, .important, .critical]

/-- Reads a severity as package tools print it, in any case. A refusal is the message about it. -/
def parse (s : String) : Except String Severity :=
  let lower := Text.lowerAscii s
  match all.find? (fun k => k.name == lower) with
  | some k => .ok k
  | none => .error ("unknown severity '" ++ lower ++ "'")

/-- Reads the stored name. -/
def ofJson : Json → Option Severity := Json.asChoice (all.map (fun k => (k.name, k)))

end Severity

/-- Why an upgrade exists. -/
structure Advisory where
  /-- The advisory's name. -/
  id : String
  /-- What it is about. -/
  kind : AdvisoryKind
  /-- How bad the problem is, when the advisory says so. -/
  severity : Option Severity
  deriving DecidableEq, Repr, Inhabited

namespace Advisory

/-- Whether the advisory is a security fix. -/
def isSecurity (a : Advisory) : Bool := a.kind == .security

/-- The stored form; a severity that is not known is left out. -/
def toJson (a : Advisory) : Json :=
  Json.record ([("id", .text a.id), ("kind", .text a.kind.name)] ++
    match a.severity with
    | some s => [("severity", .text s.name)]
    | none => [])

/-- Reads the stored form. -/
def ofJson (j : Json) : Option Advisory := do
  let r ← Json.asRecord ["id", "kind", "severity"] j
  let id ← r.required "id" Json.asText
  let kind ← r.required "kind" AdvisoryKind.ofJson
  let severity ← r.defaulted "severity" Severity.ofJson
  some ⟨id, kind, severity⟩

end Advisory

/-! ### Checksums -/

/-- What an artifact must digest to. -/
structure Checksum where
  /-- Which digest. -/
  algorithm : Digest.Variant
  /-- The digest in hexadecimal. -/
  digest : String
  deriving DecidableEq, Repr

namespace Checksum

/-- The stored name of a digest. -/
def algorithmName : Digest.Variant → String
  | .sha256 => "sha256"
  | .sha512 => "sha512"

/-- Reads the name of a digest, in any case. A refusal is the message about it. -/
def parseAlgorithm (s : String) : Except String Digest.Variant :=
  let lower := Text.lowerAscii s
  if lower == "sha256" then .ok .sha256
  else if lower == "sha512" then .ok .sha512
  else .error ("unsupported checksum algorithm '" ++ lower ++ "'")

/-- A checksum of 256 bits; its digits are put in lower case. -/
def sha256 (digest : String) : Checksum := ⟨.sha256, Text.lowerAscii digest⟩

/-- The stored form. -/
def toJson (c : Checksum) : Json :=
  Json.record [("algorithm", .text (algorithmName c.algorithm)), ("digest", .text c.digest)]

/-- Reads the stored form. -/
def ofJson (j : Json) : Option Checksum := do
  let r ← Json.asRecord ["algorithm", "digest"] j
  let algorithm ← r.required "algorithm"
    (Json.asChoice [("sha256", Digest.Variant.sha256), ("sha512", Digest.Variant.sha512)])
  let digest ← r.required "digest" Json.asText
  some ⟨algorithm, digest⟩

end Checksum

/-! ### Candidates -/

/-- A package's identity: two builds for different architectures are different packages. -/
structure PackageId where
  /-- Name. -/
  name : String
  /-- Architecture. -/
  arch : String
  deriving DecidableEq, Repr, Inhabited

namespace PackageId

/-- The identity in messages. -/
def text (p : PackageId) : String := p.name ++ "." ++ p.arch

/-- The stored form. -/
def toJson (p : PackageId) : Json := Json.record [("name", .text p.name), ("arch", .text p.arch)]

/-- Reads the stored form. -/
def ofJson (j : Json) : Option PackageId := do
  let r ← Json.asRecord ["name", "arch"] j
  some ⟨← r.required "name" Json.asText, ← r.required "arch" Json.asText⟩

end PackageId

/-- One available upgrade. -/
structure Candidate where
  /-- Name. -/
  name : String
  /-- Architecture. -/
  arch : String
  /-- The installed version; none when the upgrade brings a new package. -/
  oldVersion : Option String
  /-- The version the upgrade brings. -/
  newVersion : String
  /-- The repository it comes from. -/
  repo : String
  /-- Why it exists, when known. -/
  advisory : Option Advisory
  /-- Where its artifact is, when the repository says so. -/
  location : Option String
  /-- What its artifact must digest to, when the repository says so. -/
  checksum : Option Checksum
  deriving DecidableEq, Repr

namespace Candidate

/-- The package's identity. -/
def id (c : Candidate) : PackageId := ⟨c.name, c.arch⟩

/-- Whether the upgrade is a security fix. -/
def isSecurity (c : Candidate) : Bool :=
  match c.advisory with
  | some a => a.isSecurity
  | none => false

/-- The severity its advisory gives. -/
def severity (c : Candidate) : Option Severity := c.advisory.bind Advisory.severity

/-- Name, version and architecture in one word. -/
def nevra (c : Candidate) : String := c.name ++ "-" ++ c.newVersion ++ "." ++ c.arch

/-- The file the artifact is kept in: colons, which come from epochs, become underscores. -/
def artifactFileName (c : Candidate) : String :=
  String.ofList (c.nevra.toList.map (fun ch => if ch == ':' then '_' else ch)) ++ ".rpm"

/-- The candidate in a short list. -/
def brief (c : Candidate) : String := c.nevra ++ " [" ++ c.repo ++ "]"

/-- The stored form; what is not known is left out, except the old version. -/
def toJson (c : Candidate) : Json :=
  Json.record ([("name", .text c.name), ("arch", .text c.arch),
      ("old_version", Json.optional .text c.oldVersion), ("new_version", .text c.newVersion),
      ("repo", .text c.repo)] ++
    (match c.advisory with
      | some a => [("advisory", a.toJson)]
      | none => []) ++
    (match c.location with
      | some l => [("location", .text l)]
      | none => []) ++
    (match c.checksum with
      | some k => [("checksum", k.toJson)]
      | none => []))

/-- Reads the stored form. -/
def ofJson (j : Json) : Option Candidate := do
  let r ← Json.asRecord ["name", "arch", "old_version", "new_version", "repo", "advisory",
    "location", "checksum"] j
  let name ← r.required "name" Json.asText
  let arch ← r.required "arch" Json.asText
  let oldVersion ← r.optional "old_version" Json.asText
  let newVersion ← r.required "new_version" Json.asText
  let repo ← r.required "repo" Json.asText
  let advisory ← r.defaulted "advisory" Advisory.ofJson
  let location ← r.defaulted "location" Json.asText
  let checksum ← r.defaulted "checksum" Checksum.ofJson
  some ⟨name, arch, oldVersion, newVersion, repo, advisory, location, checksum⟩

end Candidate

/-- A candidate whose artifact was fetched and matched its checksum. -/
structure Artifact where
  /-- The candidate. -/
  candidate : Candidate
  /-- The file its artifact is in. -/
  path : String
  deriving DecidableEq, Repr

end Upkeep
