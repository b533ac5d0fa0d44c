import Upkeep.Cancellation
import Upkeep.Config.Form
import Upkeep.Main
import Upkeep.Proofs.History
import Upkeep.Rehearsal.Form
import Upkeep.Rehearsal.Series
import Upkeep.Proofs.Download.Turns
import Upkeep.Proofs.Download.Outcomes
import Upkeep.Proofs.Metadata
import Upkeep.Proofs.Run.Authority
import Upkeep.Proofs.Download.Collisions
import Upkeep.Proofs.Files.Publication
import Upkeep.Proofs.Run.Series
import Upkeep.Proofs.Run.Submission
import Upkeep.Proofs.Remainders
import Upkeep.Proofs.Run.Standing
import Upkeep.Proofs.Run.Interruption
import Upkeep.Proofs.Run.Notice
import Upkeep.Proofs.Lock.Contest
import Upkeep.Proofs.Lock.Exclusion
import Upkeep.Proofs.Run.Locking
import Upkeep.Proofs.Run.Traffic
import Upkeep.Proofs.Run.Exclusion
import Upkeep.Proofs.Instants
import Upkeep.Proofs.Marker
import Upkeep.Proofs.Run.Gate
import Upkeep.Proofs.Run.Logs
import Upkeep.Proofs.Run.Overtaking
import Upkeep.Proofs.Emission
import Upkeep.Proofs.Likeness
import Upkeep.Proofs.Run.Containment
import Upkeep.Proofs.Run.Rebooting
import Upkeep.Proofs.Dnf.Advisories
import Upkeep.Proofs.Dnf.Upgrades
import Upkeep.Proofs.Dnf.Precedence
import Upkeep.Proofs.Run.UpToDate
import Upkeep.Proofs.StoredForms
import Upkeep.Proofs.Run.Idleness
import Upkeep.Proofs.Files.Absence
import Upkeep.Proofs.Run.Posting
import Upkeep.Proofs.Download.Attempts
import Upkeep.Proofs.Endurance
import Upkeep.Proofs.Run.Hangs
import Upkeep.Proofs.Run.Trace
import Upkeep.Proofs.Download.Storage
import Upkeep.Proofs.Download.Isolation
import Upkeep.Proofs.Shell.CommandLines
import Upkeep.Proofs.Run.Freshness
import Upkeep.Proofs.Download.Concurrency
import Upkeep.Proofs.Download.Retries
import Upkeep.Proofs.StableSelection
import Upkeep.Proofs.Dnf.Listings
import Upkeep.Proofs.MarkerWrites
import Upkeep.Proofs.Run.Fates
import Upkeep.Proofs.Dnf.Caches
import Upkeep.Proofs.CommandLine.Reading
import Upkeep.Proofs.Download.Verification
import Upkeep.Proofs.Template
import Upkeep.Proofs.Download.Pacing
