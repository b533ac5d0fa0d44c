import Upkeep.Candidate
import Upkeep.Text.Chars

/-!
# Output of dnf and rpm

The four outputs a run reads: the enabled repositories, the installed packages, the available
upgrades and the advisories. Each is read line by line; a line that is not of the expected form
is dropped, because these tools mix notices into their output.

A version that starts with epoch zero is the same version without it, so `0:` is dropped wherever
versions are compared.

## Main definitions

* `Dnf.parseRepositories`, `Dnf.parseInstalled`, `Dnf.parseUpgrades`, `Dnf.parseAdvisories`.
* `Dnf.attachAdvisories`: which advisory a candidate gets.
* `Dnf.isCacheDirOf`: which cache directories belong to a repository.
-/

namespace Upkeep.Dnf

open Text

/-- A version without a zero epoch. -/
def dropZeroEpoch (evr : List Char) : List Char :=
  match evr with
  | '0' :: ':' :: rest => rest
  | _ => evr

/-- A version without its epoch. -/
def dropEpoch (evr : String) : String :=
  match cut ':' evr.toList with
  | some (_, rest) => String.ofList rest
  | none => evr

/-- The repository a line of the repository list names, unless the line is empty or the header. -/
def repositoryOfLine (line : List Char) : Option String :=
  let line := trim line
  if (after? "repo id".toList line).isSome then none
  else (words line).head?.map String.ofList

/-- The enabled repositories. -/
def parseRepositories (output : String) : List String :=
  (lines output.toList).filterMap repositoryOfLine

/-- Fields between tabs, without the blanks around each. -/
def fields (line : List Char) : List (List Char) := (splitOn '\t' line).map trim

/-- An installed package. -/
structure Installed where
  /-- Name. -/
  name : String
  /-- Architecture. -/
  arch : String
  /-- Version. -/
  evr : String
  deriving DecidableEq, Repr

/-- The installed package a line names. -/
def installedOfLine (line : List Char) : Option Installed :=
  match fields line with
  | name :: arch :: evr :: _ =>
    if name.isEmpty || evr.isEmpty then none
    else some ⟨String.ofList name, String.ofList arch, String.ofList (dropZeroEpoch evr)⟩
  | _ => none

/-- The installed packages, in the order they are listed. -/
def parseInstalled (output : String) : List Installed :=
  (lines output.toList).filterMap installedOfLine

/-- The installed version of a package: the last one listed. -/
def installedVersion (installed : List Installed) (name arch : String) : Option String :=
  (installed.reverse.find? (fun p => p.name == name && p.arch == arch)).map Installed.evr

/-- A checksum as `algorithm:digest`. -/
def checksumOfField (field : List Char) : Option Checksum :=
  match cut ':' field with
  | none => none
  | some (algorithm, digest) =>
    match Checksum.parseAlgorithm (String.ofList algorithm) with
    | .error _ => none
    | .ok algorithm =>
      if digest.isEmpty || !digest.all isHexDigit then none
      else some ⟨algorithm, lowerAscii (String.ofList digest)⟩

/-- A location; empty and `(none)` are none. -/
def locationOfField (field : List Char) : Option String :=
  if field.isEmpty || field == "(none)".toList then none else some (String.ofList field)

/-- The upgrade a line lists. -/
def upgradeOfLine (line : List Char) : Option Candidate :=
  match fields line with
  | name :: arch :: evr :: repo :: more =>
    if name.isEmpty then none
    else some {
      name := String.ofList name
      arch := String.ofList arch
      oldVersion := none
      newVersion := String.ofList (dropZeroEpoch evr)
      repo := String.ofList repo
      advisory := none
      location := more.head?.bind locationOfField
      checksum := (more.drop 1).head?.bind checksumOfField }
  | _ => none

/-- The available upgrades, without installed versions and advisories. -/
def parseUpgrades (output : String) : List Candidate :=
  (lines output.toList).filterMap upgradeOfLine

/-- What an advisory is about: `severity/kind`, or a kind alone. An unknown kind after a severity
is kept as unknown; alone it makes the line something else. -/
def kindOfWord (word : List Char) : Option (AdvisoryKind × Option Severity) :=
  match cut '/' word with
  | some (severity, kind) =>
    some ((AdvisoryKind.parse (String.ofList kind)).toOption.getD .unknown,
      (Severity.parse (String.ofList severity)).toOption)
  | none => ((AdvisoryKind.parse (String.ofList word)).toOption).map (fun k => (k, none))

/-- The package and the advisory a line names. -/
def advisoryOfLine (line : List Char) : Option (String × Advisory) :=
  match words line with
  | id :: kind :: nevra :: _ =>
    (kindOfWord kind).map (fun (k, severity) =>
      (String.ofList nevra, ⟨String.ofList id, k, severity⟩))
  | _ => none

/-- The advisories and the packages they are for. -/
def parseAdvisories (output : String) : List (String × Advisory) :=
  (lines output.toList).filterMap advisoryOfLine

/-! ### Attaching advisories -/

/-- How much an advisory matters: security first, then its severity. -/
def rank (a : Advisory) : Nat :=
  (if a.isSecurity then 8 else 0) +
    match a.severity with
    | none => 0
    | some s => s.rank + 1

/-- The one that matters more; the earlier one when they matter alike. -/
def keepHigher (best : Option Advisory) (a : Advisory) : Option Advisory :=
  match best with
  | none => some a
  | some b => if rank b < rank a then some a else some b

/-- The advisory that matters most among those for a package. -/
def advisoryFor (advisories : List (String × Advisory)) (nevra : String) : Option Advisory :=
  ((advisories.filter (fun (n, _) => n == nevra)).map (fun (_, a) => a)).foldl keepHigher none

/-- A candidate with its advisory. Advisories may name the version with or without its epoch. -/
def attachAdvisory (advisories : List (String × Advisory)) (c : Candidate) : Candidate :=
  let bare := c.name ++ "-" ++ dropEpoch c.newVersion ++ "." ++ c.arch
  { c with advisory := (advisoryFor advisories c.nevra).or (advisoryFor advisories bare) }

/-- Candidates with their advisories. -/
def attachAdvisories (candidates : List Candidate) (advisories : List (String × Advisory)) :
    List Candidate :=
  candidates.map (attachAdvisory advisories)

/-! ### The metadata cache -/

/-- Whether a cache directory belongs to a repository: its name is the repository's, a dash, and
hexadecimal digits. -/
def isCacheDirOf (repo dir : String) : Bool :=
  match cutLast '-' dir.toList with
  | some (id, hash) => String.ofList id == repo && !hash.isEmpty && hash.all isHexDigit
  | none => false

end Upkeep.Dnf
