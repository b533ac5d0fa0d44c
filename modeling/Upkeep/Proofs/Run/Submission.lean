import Upkeep.Proofs.Download.Collisions
import Upkeep.Proofs.Download.Isolation
import Upkeep.Proofs.Run.Authority
import Upkeep.Proofs.Selection

/-!
# What is submitted

A transaction gets the artifacts of the report, and by then nothing is in flight any more. So what
is submitted is intact if the downloads were reliable: if the candidates that the run considers are
separate. Selecting does not make them so. Two repositories may offer one version of a package, both
candidates are selected, and their artifacts have one file.

## Main definitions

* `stocking`: a world in which work is done as soon as it has begun, on files.

## Main results

* `leads_intact`: when downloads are reliable, and what that means for a run.
* `not_reliable_select`: what is selected does not have to be downloaded reliably.
-/

namespace Upkeep.Run

/-! ### Runs in which work is done at once -/

/-- The work in flight is that of downloads. -/
theorem cues_during (h : History) : History.cues (h.during .download) = h.cues := by
  induction h with
  | nil => rfl
  | cons e h ih =>
    obtain ⟨q, answer⟩ := e
    cases q with
    | begin | await => exact congrArg (_ ++ ·) ih
    | _ => exact ih

/-- A candidate of `bash` from a repository that says what an empty artifact digests to. -/
def empty (repo : String) : Candidate :=
  { bash with repo := repo, checksum := some ⟨.sha256, contentDigest .sha256 ⟨#[]⟩⟩ }

/-- Settings under which a run applies what it finds, by way of a cache at the root. -/
def caching : Settings :=
  { applying with config := { applying.config with download := { cacheDir := "/cache" } } }

/-- Files in which there is an empty file at a path, if there can be one. -/
def store (fs : Files) (path : String) : Files :=
  match fs.lookForWriting path with
  | .ok (place, _) => fs.put place (.file 0 ⟨#[]⟩ none)
  | .error _ => fs

theorem store_eq_or_writes (fs : Files) (path : String) :
    store fs path = fs ∨ fs.Writes path (store fs path) := by
  rw [store]
  cases hlook : fs.lookForWriting path with
  | error cause => exact Or.inl rfl
  | ok found =>
    refine Or.inr ⟨found.1, found.2, hlook, ?_, fun p hp => Files.find?_put_of_ne hp⟩
    dsimp only
    rw [Files.find?_put_self (Path.file?_ne_nil (Files.lookForWriting_eq_ok hlook).1)]
    simp

/-- A world in which all goes well, every artifact is empty, and work is done as soon as it has
begun. The state is the files. -/
def stocking (offered : List Candidate) : World Files
  | .begin _ (.fetch c dir _), fs =>
    (atOnce (some (.inTime (.ok (c.artifactPath dir)))), store fs (c.artifactPath dir))
  | .begin _ (.digest path algorithm), fs =>
    (atOnce (some (Verification.fileDigest fs path algorithm)), fs)
  | .begin _ (.discard path), fs => (atOnce (some ()), Verification.discard fs path)
  | q, fs => ((smooth offered q ()).1, fs)

/-- A piece of work that is done as soon as it has begun, whatever it touches. -/
theorem filmed_piece {fs fs' : Files} {k : Nat} {job : Job} {r : job.Result}
    (htouches : fs' = fs ∨ job.Touches fs fs') (hyields : ∀ seen, job.Yields (fs :: seen) r) :
    Filmed (.still fs) [.launch k job, .settle ⟨k, job, r⟩] (.still fs') := by
  rcases htouches with rfl | htouches
  · exact filmed_instant rfl (hyields [])
  · exact ⟨_, _, .refl _, .launched _ k job, filmed_touching htouches (hyields [fs'])⟩

/-- Whether a request waits for work in flight. -/
def awaits : Request → Bool
  | .await .. => true
  | _ => false

/-- Where nothing is waited for, the files of that world are a film. -/
theorem filmed_stocking {offered : List Candidate} {h : History} {fs : Files}
    (hgives : (stocking offered).Gives h fs) (hh : ∀ e ∈ h, awaits e.request = false) :
    Filmed (.still fs) h.cues (.still ((stocking offered).after h fs)) := by
  induction h generalizing fs with
  | nil => exact .refl _
  | cons e h ih =>
    obtain ⟨q, answer⟩ := e
    obtain ⟨hanswer, hrest⟩ := hgives
    obtain ⟨hnow, hlater⟩ := List.forall_mem_cons.mp hh
    change answer = (stocking offered q fs).1 at hanswer
    subst hanswer
    refine filmed_append.mpr ⟨.still (stocking offered q fs).2, ?_, ih hrest hlater⟩
    cases q with
    | begin k job =>
      cases job with
      | fetch c dir limit =>
        have hwrites := store_eq_or_writes fs (c.artifactPath dir)
        exact filmed_piece (hwrites.imp_right Or.inr) fun _ => rfl
      | rest millis => exact filmed_piece (Or.inl rfl) fun _ => trivial
      | digest path algorithm =>
        exact filmed_instant rfl (Download.yields_fileDigest fs path algorithm)
      | discard path => exact filmed_piece (Or.inr rfl) fun _ => trivial
    | await first rest => cases hnow
    | _ => exact .refl _

/-- A run in that world goes on with what is selected of what is offered. -/
theorem stocking_fromQuery (offered : List Candidate) (fs : Files) :
    let left := fromQuery caching (Selection.select offered .all ["updates"] [])
    (run caching).history (stocking offered) fs =
        ((run caching).history (stocking offered) fs).take 8 ++
          left.history (stocking offered) fs ∧
      (run caching).run (stocking offered) fs = left.run (stocking offered) fs :=
  ⟨rfl, rfl⟩

/-- Whether a request submits two artifacts. -/
def submitsTwo : Request → Bool
  | .apply artifacts _ => artifacts.length == 2
  | _ => false

/-! ### What a run submits -/

/-- What a run submits is what the downloads before it came to. -/
theorem submitted_of_leads {s : Settings} {h before after : History} {record : Record}
    {artifacts : List Artifact} {limit : Span}
    {answer : Answer (Request.apply artifacts limit).Reply} (hl : (run s).Leads h record)
    (heq : h = before ++ ⟨.apply artifacts limit, answer⟩ :: after) :
    ∃ report, (Download.all s.config.download record.result.considered).Leads
      (before.during .download) report ∧ artifacts = report.succeeded := by
  obtain ⟨-, -, -, ⟨report, hreturned, hartifacts⟩, -⟩ :=
    (lawful_of_leads hl).sanctioned before _ after heq artifacts limit rfl
  exact ⟨report, hreturned.2.1, hartifacts⟩

/-- **When what is submitted is intact.** Downloads are reliable if and only if their candidates
are separate; and if the candidates that a run considers are, every artifact that it submits is
intact when it does. -/
theorem leads_intact (d : DownloadConfig) (cs : List Candidate) :
    (Download.Reliable d cs ↔ Download.Separate d cs) ∧
      ∀ (s : Settings) (h before after : History) (record : Record) (artifacts : List Artifact)
        (limit : Span) (answer : Answer (Request.apply artifacts limit).Reply) (fs : Files)
        (sc : Scene), s.config.download = d → record.result.considered = cs →
          (run s).Leads h record → h = before ++ ⟨.apply artifacts limit, answer⟩ :: after →
          Filmed (.still fs) (History.cues (before.during .download)) sc →
          Download.Separate d cs → ∀ a ∈ artifacts, sc.files.Intact a.path a.candidate := by
  refine ⟨Download.reliable_iff, ?_⟩
  rintro s h before after record artifacts limit answer fs sc rfl rfl hl heq hfilm hseparate a ha
  obtain ⟨report, hreport, rfl⟩ := submitted_of_leads hl heq
  exact Download.reliable_of_separate hseparate _ report fs sc hreport hfilm a ha

/-- A run submits two artifacts that have two files, and both are intact when it does. -/
theorem leads_intact_stocking :
    let cs := [empty "updates", { empty "updates" with name := "zsh" }]
    ∃ (before after : History) (artifacts : List Artifact) (limit : Span)
      (answer : Answer (Request.apply artifacts limit).Reply),
      (run caching).history (stocking cs) Download.vacant =
        before ++ ⟨.apply artifacts limit, answer⟩ :: after ∧ artifacts.length = 2 ∧
          ∀ a ∈ artifacts,
            ((stocking cs).after before Download.vacant).Intact a.path a.candidate := by
  intro cs
  have hselect : Selection.select cs .all ["updates"] [] = cs :=
    Selection.select_eq_self (by decide +kernel) (by decide +kernel)
  obtain ⟨hhistory, hrun⟩ := stocking_fromQuery cs Download.vacant
  rw [hselect] at hhistory hrun
  have hleads := Program.leads_history (stocking cs) (run caching) Download.vacant
  have hgives := Program.gives_history (stocking cs) (run caching) Download.vacant
  have hconsidered :
      ((run caching).run (stocking cs) Download.vacant).1.result.considered = cs := by
    rw [hrun]
    decide +kernel
  have hmade : (∀ e ∈ (run caching).history (stocking cs) Download.vacant,
      awaits e.request = false) ∧ ∃ e ∈ (run caching).history (stocking cs) Download.vacant,
        submitsTwo e.request = true := by
    rw [hhistory]
    decide +kernel
  obtain ⟨hinstant, ⟨q, answer⟩, hmem, htwo⟩ := hmade
  obtain ⟨before, after, heq⟩ := List.append_of_mem hmem
  cases q with
  | apply artifacts limit =>
    have hseparate : Download.Separate caching.config.download cs :=
      Download.separate_of_nodup
        (Download.artifactPlaces_nodup (by decide +kernel) (by decide +kernel))
    have hfilm : Filmed (.still Download.vacant) (History.cues (History.during .download before))
        (.still ((stocking cs).after before Download.vacant)) := by
      rw [heq] at hgives hinstant
      rw [cues_during]
      exact filmed_stocking (World.gives_append.mp hgives).1
        fun e he => hinstant e (List.mem_append_left _ he)
    have hintact := (leads_intact caching.config.download cs).2 caching _ before after _ artifacts
      limit answer Download.vacant _ rfl hconsidered hleads heq hfilm hseparate
    exact ⟨before, after, artifacts, limit, answer, heq, beq_iff_eq.mp htwo, hintact⟩
  | _ => cases htwo

/-! ### What is selected -/

/-- What is selected does not have to be separate: of two candidates of one file, both are selected,
in the order in which they were offered. -/
theorem not_reliable_select {d : DownloadConfig} {offered : List Candidate} {scope : Scope}
    {available exclude : List String} {c c' : Candidate} {fs : Files}
    (hoffered : [c, c'].Sublist offered)
    (hc : Selection.wanted scope available exclude c = true)
    (hc' : Selection.wanted scope available exclude c' = true) (hname : c.name = c'.name)
    (harch : c.arch = c'.arch) (hfile : c.artifactFileName = c'.artifactFileName)
    (hintact : fs.Intact (c.artifactPath d.cacheDir) c) :
    ¬Download.Reliable d (Selection.select offered scope available exclude) :=
  Download.not_reliable_of_artifactFileName_eq
    (Selection.pair_sublist_select hoffered hc hc' hname harch) hfile hintact

/-- Files in which the artifact of a candidate of `bash` is intact if it is empty. -/
def cached : Files where
  entries := [(["cache"], .directory), (["cache", "bash-1.1-1.x86_64.rpm"], .file 0 ⟨#[]⟩ none)]
  nextIdentity := 1

/-- Two repositories offer one version of `bash`: its downloads are not reliable, even one by
one. -/
theorem not_reliable_twins :
    ¬Download.Reliable { maxParallel := 1, cacheDir := "/cache" }
      (Selection.select [empty "updates", { bash with repo := "extra" }] .all
        ["updates", "extra"] []) := by
  have hread : cached.read ((empty "updates").artifactPath "/cache") = .ok ⟨#[]⟩ := by
    rw [Candidate.artifactPath]
    decide +kernel
  have hintact : cached.Intact ((empty "updates").artifactPath "/cache") (empty "updates") :=
    Files.intact_iff.mpr ⟨_, _, rfl, hread, beq_self_eq_true _⟩
  exact not_reliable_select (List.Sublist.refl _) (by decide +kernel) (by decide +kernel) rfl rfl
    rfl hintact

end Upkeep.Run
