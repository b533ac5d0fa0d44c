import Upkeep.Program

/-!
# Repository metadata

Which repositories a run can rely on. Metadata that is missing or too old is refreshed, one
repository after the other; a repository whose refresh fails drops out, and the run goes on with
the rest.

## Main definitions

* `Repository.isStale`.
* `Metadata.Summary`, `Metadata.ensureFresh`.
-/

namespace Upkeep

/-- Whether a repository's metadata is too old: it has none, or it was refreshed at least
`maxAge` ago. Metadata from the future is fresh. -/
def Repository.isStale (r : Repository) (maxAge : Span) (now : Instant) : Bool :=
  match r.lastRefreshed with
  | none => true
  | some time =>
    match now.since? time with
    | some age => maxAge.nanos ≤ age.nanos
    | none => false

namespace Metadata

/-- Which repositories can be relied on. -/
structure Summary where
  /-- Those with usable metadata. -/
  available : List String
  /-- Those that were refreshed. -/
  refreshed : List String
  /-- Those whose refresh failed, with the reason. -/
  failed : List (String × String)
  deriving DecidableEq, Repr

namespace Summary

/-- No repository yet. -/
def empty : Summary := ⟨[], [], []⟩

/-- Whether a repository dropped out. -/
def isDegraded (s : Summary) : Bool := !s.failed.isEmpty

/-- One more repository whose metadata is fresh enough. -/
def addFresh (s : Summary) (id : String) : Summary :=
  { s with available := s.available ++ [id] }

/-- One more repository that was asked for fresh metadata. -/
def addRefresh (s : Summary) (id : String) (limit : Span) :
    Timed (Except String Unit) → Summary
  | .inTime (.ok ()) =>
    { s with available := s.available ++ [id], refreshed := s.refreshed ++ [id] }
  | .inTime (.error reason) => { s with failed := s.failed ++ [(id, reason)] }
  | .expired => { s with failed := s.failed ++ [(id, timedOut limit)] }

end Summary

/-- The repositories that a filter lets through; an empty filter lets all of them through. -/
def allowed (only : List String) (repositories : List Repository) : List Repository :=
  repositories.filter fun r => only.isEmpty || only.contains r.id

/-- Refreshes what is stale, in order. -/
def refreshStale (maxAge limit : Span) (now : Instant) (s : Summary) :
    List Repository → Program Summary
  | [] => .done s
  | r :: rs =>
    if r.isStale maxAge now then
      .ask (.refresh r.id limit) fun a =>
        refreshStale maxAge limit now (s.addRefresh r.id limit a.value) rs
    else refreshStale maxAge limit now (s.addFresh r.id) rs

/-- The repositories with usable metadata, after a refresh of those that need it. -/
def ensureFresh (only : List String) (maxAge limit : Span) (now : Instant) :
    Program (Except RunError Summary) :=
  .ask .listRepositories fun a =>
    match a.value with
    | .error reason =>
      .done (.error (.metadataUnavailable ("cannot list repositories: " ++ reason)))
    | .ok listed =>
      let repositories := allowed only listed
      if repositories.isEmpty then .done (.error (.metadataUnavailable "no enabled repositories"))
      else
        (refreshStale maxAge limit now .empty repositories).bind fun s =>
          if s.available.isEmpty then
            .done (.error (.metadataUnavailable
              ("all " ++ toString repositories.length ++ " repositories failed to refresh")))
          else .done (.ok s)

end Metadata

end Upkeep
