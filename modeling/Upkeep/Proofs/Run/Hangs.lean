import Upkeep.Proofs.Download.Attempts
import Upkeep.Proofs.Endurance
import Upkeep.Proofs.Run.Consistency
import Upkeep.Proofs.Run.Posting

/-!
# Runs in which calls never return

Any refresh, query, fetch, transaction or emitter may never return. The run then goes on when the
limit of the call has passed, and what it makes of that is a matter of the stage that waited: a
repository drops out, the run is aborted, an attempt counts as failed in passing, or a report has
not been delivered. Other repositories, candidates and emitters are judged by their own answers.

That a stage makes so much of a hang, and no more, is said of every history, whichever calls hang in
it, alone or together; and that there is such a history, of every world in which only those calls
never return. That a hang is mistaken for nothing else is said by comparison with the run in which
every call returns, if only to say that it has timed out.

## Main definitions

* `RunResult.degradations`: the warnings about repositories that dropped out.
* `Run.Sighted`: what a run has found out so far.
* `Run.Withstood`: what a run makes of calls that never return.

## Main results

* `Run.hangs_withstood`: a run ends whichever of those calls never return, and makes no more of it.
-/

namespace Upkeep

namespace RunResult

/-- The warnings about repositories that dropped out. -/
def degradations (r : RunResult) : List FailureRecord :=
  r.warnings.filter fun w => w.kind = .partialMetadataDegradation

end RunResult

/-- A transaction that was given up on leaves the state unknown. -/
theorem Transaction.error_of_expired {artifacts artifacts' : List Artifact} {limit limit' : Span}
    {answer : Answer (Timed (Except TransactionError Unit))} {h : History}
    {r : Except TransactionError (List Candidate)} (hl : (apply artifacts limit).Leads h r)
    (he : (⟨.apply artifacts' limit', answer⟩ : Event) ∈ h) (hexpired : answer.value = .expired) :
    r = .error (.timeout limit') := by
  rw [apply] at hl
  split at hl
  · obtain ⟨rfl, -⟩ := hl
    cases he
  · obtain ⟨answer', rest, rfl, rfl, rfl⟩ := hl
    cases List.mem_singleton.mp he
    rw [hexpired]

namespace Run

/-- The warning about a repository that dropped out. -/
def degraded (f : String × String) : FailureRecord :=
  ⟨.refresh, none, .partialMetadataDegradation, f.1 ++ ": " ++ f.2⟩

section

variable {s : Settings} {p p' : Spot} {l l' : Ledger} {h h' h₀ : History} {reached : Reached}
  {locked : Bool} {record : Record} {r r' : RunResult} {available : List String}

/-! ### What a run has found out so far -/

theorem Exit.degradations (exit : Exit s p l h l' reached) :
    l'.result.degradations = l.result.degradations :=
  exit.warned (by decide)

/-- Closing does not warn of repositories. -/
theorem Closing.degradations (hc : Closing s reached locked l h record) :
    record.result.degradations = l.result.degradations := by
  obtain ⟨now, emitted, persisted, rebooted, released⟩ := hc
  rename_i summary l₁ l₂
  calc (finishAt (l₂.note _) now.value).result.degradations = l₂.result.degradations := rfl
    _ = l₁.result.degradations := rebooted.warned (by decide)
    _ = _ := persisted.warned (by decide)
    _ = l.result.degradations := by
      rw [Ledger.result_update, warnUndelivered_eq]
      refine RunResult.warned_append _ fun w hw => ?_
      obtain ⟨f, -, rfl⟩ := List.mem_map.mp hw
      simp [undelivered]

/-- Nothing has been asked about metadata, nor about upgrades. -/
structure Unasked (h : History) (r : RunResult) : Prop where
  /-- Nothing about metadata. -/
  metadata : h.during .metadata = []
  /-- Nothing about upgrades. -/
  query : h.during .query = []
  /-- No repository has dropped out. -/
  degradations : r.degradations = []

/-- What was asked about metadata has left some repositories, and the result warns of the others,
each of which is judged by the answer to its own refresh. -/
def Refreshed (s : Settings) (h : History) (available : List String) (r : RunResult) : Prop :=
  ∃ (time : Answer Instant) (listing : Answer (Except String (List Repository)))
    (listed : List Repository) (refreshes : History) (failed : List (String × String)),
    (⟨.now, time⟩ : Event) ∈ h ∧
      h.during .metadata = ⟨.listRepositories, listing⟩ :: refreshes ∧
      listing.value = .ok listed ∧
      Metadata.Judged s.config.metadataMaxAge s.metadataLimit time.value
        (Metadata.allowed s.config.base.repos listed) refreshes available failed ∧
      r.degradations = failed.map degraded

/-- The repositories that are left have been queried, and have answered. -/
def Queried (s : Settings) (h : History) (r : RunResult) : Prop :=
  ∃ (available : List String) (answer : Answer (Timed (Except String (List Candidate))))
    (offered : List Candidate), Refreshed s h available r ∧ available ≠ [] ∧
      h.during .query = [⟨.query available s.metadataLimit, answer⟩] ∧
      answer.value = .inTime (.ok offered)

/-- What a run has found out where it stands. -/
def Sighted (s : Settings) (h : History) (r : RunResult) : Spot → Prop
  | .metadata now => Unasked h r ∧ ∃ time : Answer Instant, ⟨.now, time⟩ ∈ h ∧ time.value = now
  | .query available => Refreshed s h available r ∧ available ≠ [] ∧ h.during .query = []
  | .download | .transaction _ | .advice => Queried s h r
  | _ => Unasked h r

theorem Unasked.append (hu : Unasked h₀ r)
    (hmetadata : (h₀ ++ h).during .metadata = h₀.during .metadata)
    (hquery : (h₀ ++ h).during .query = h₀.during .query)
    (hwarned : r'.degradations = r.degradations) : Unasked (h₀ ++ h) r' :=
  ⟨hmetadata.trans hu.metadata, hquery.trans hu.query, hwarned.trans hu.degradations⟩

theorem Refreshed.append (hr : Refreshed s h₀ available r)
    (hmetadata : (h₀ ++ h).during .metadata = h₀.during .metadata)
    (hwarned : r'.degradations = r.degradations) : Refreshed s (h₀ ++ h) available r' := by
  obtain ⟨time, listing, listed, refreshes, failed, htime, hduring, hlisting, hjudged, hfailed⟩ :=
    hr
  exact ⟨time, listing, listed, refreshes, failed, List.mem_append_left _ htime,
    hmetadata.trans hduring, hlisting, hjudged, hwarned.trans hfailed⟩

theorem Queried.append (hq : Queried s h₀ r)
    (hmetadata : (h₀ ++ h).during .metadata = h₀.during .metadata)
    (hquery : (h₀ ++ h).during .query = h₀.during .query)
    (hwarned : r'.degradations = r.degradations) : Queried s (h₀ ++ h) r' := by
  obtain ⟨available, answer, offered, hrefreshed, hsome, hduring, hanswer⟩ := hq
  exact ⟨available, answer, offered, hrefreshed.append hmetadata hwarned, hsome,
    hquery.trans hduring, hanswer⟩

/-- The first metadata of a history are all of it. -/
theorem during_metadata_append (hquiet : h₀.during .metadata = [])
    (hkeeps : ∀ e ∈ h, e.request.phase = .metadata) : (h₀ ++ h).during .metadata = h := by
  rw [History.during_append, hquiet, List.nil_append, History.during_eq_self hkeeps]

/-- The first query of a history is all of them. -/
theorem during_query_append {limit : Span}
    {answer : Answer (Timed (Except String (List Candidate)))} (hquiet : h₀.during .query = []) :
    (h₀ ++ [(⟨.query available limit, answer⟩ : Event)]).during .query =
      [⟨.query available limit, answer⟩] := by
  rw [History.during_append, hquiet]
  rfl

theorem Step.sighted (step : Step s p l h p' l') (hinv : Sighted s h₀ l.result p) :
    Sighted s (h₀ ++ h) l'.result p' := by
  have hquiet := fun phase => History.during_append_of_ne phase h₀ step.keeps
  -- only two steps find anything out; the others keep what has been found out
  cases step with
  | due _ _ | awake _ | slept _ _ | hasty _ | waiting _ | impatient | online _ | overdue _ _ _
  | offline _ _ _ | rested _ =>
    exact Unasked.append hinv (hquiet _ (by simp)) (hquiet _ (by simp)) rfl
  | timed answer =>
    exact ⟨Unasked.append hinv (hquiet _ (by simp)) (hquiet _ (by simp)) rfl, answer, by simp, rfl⟩
  | refreshed passed =>
    obtain ⟨hunasked, time, htime, rfl⟩ := hinv
    obtain ⟨listing, rest, rfl, ⟨reason, heq⟩ | ⟨listed, s', hlisting, -, -⟩⟩ :=
      Metadata.leads_ensureFresh_cases passed.2.1
    · cases heq
    obtain ⟨as, fs, hjudged, hnone, hsome⟩ :=
      Metadata.leads_ensureFresh_judged passed.2.1 hlisting
    have hne : as ≠ [] := by
      intro hnil
      obtain ⟨reason, heq⟩ := hnone hnil
      cases heq
    obtain ⟨summary, heq, rfl, rfl⟩ := hsome hne
    cases heq
    refine ⟨⟨time, listing, listed, rest, _, List.mem_append_left _ htime,
      during_metadata_append hunasked.metadata (passed.keeps (keeps_ensureFresh _ _ _ _)), hlisting,
      hjudged, ?_⟩, hne, (hquiet .query (by simp)).trans hunasked.query⟩
    have hempty : l.result.degradations = [] := hunasked.degradations
    rw [Ledger.result_update, warnDegraded_eq, RunResult.degradations, List.filter_append]
    change l.result.degradations ++ _ = _
    rw [hempty, List.nil_append, List.filter_eq_self.mpr]
    · rfl
    · intro w hw
      obtain ⟨f, -, rfl⟩ := List.mem_map.mp hw
      rfl
  | offered passed some wanted =>
    obtain ⟨hrefreshed, hsome, hduring⟩ := hinv
    obtain ⟨answer, offered, rfl, hanswer, rfl⟩ := Upgrades.leads_list passed.2.1
    exact ⟨_, answer, offered, hrefreshed.append (hquiet _ (by simp)) rfl, hsome,
      during_query_append hduring, hanswer⟩
  | downloaded passed wanted =>
    refine Queried.append hinv (hquiet _ (by simp)) (hquiet _ (by simp)) ?_
    rw [Ledger.result_update, recordDownloads_eq]
    rfl
  | applied passed =>
    exact Queried.append hinv (hquiet _ (by simp)) (hquiet _ (by simp)) rfl
  | refused passed known partly =>
    exact Queried.append hinv (hquiet _ (by simp)) (hquiet _ (by simp)) rfl

theorem Stands.sighted (hs : Stands s h p l) : Sighted s h l.result p := by
  induction hs with
  | locked started answer locked => exact ⟨rfl, rfl, rfl⟩
  | on before step ih => exact step.sighted ih

/-! ### Metadata and upgrades -/

/-- What a run makes of refreshes that never return: each repository is judged by its own answer.
Metadata is unavailable if none is left; otherwise those that are left are queried, and the result
warns of the others. -/
def MetadataWithstood (s : Settings) (h : History) (r : RunResult) : Prop :=
  ∀ (listing : Answer (Except String (List Repository))) (refreshes : History)
    (listed : List Repository), h.during .metadata = ⟨.listRepositories, listing⟩ :: refreshes →
      listing.value = .ok listed →
        ∃ (time : Answer Instant) (available : List String) (failed : List (String × String)),
          (⟨.now, time⟩ : Event) ∈ h ∧
          Metadata.Judged s.config.metadataMaxAge s.metadataLimit time.value
            (Metadata.allowed s.config.base.repos listed) refreshes available failed ∧
          (available = [] → r.outcome = .aborted ∧ r.abortKind = some .metadataUnavailable ∧
            h.during .query = []) ∧
          (available ≠ [] → r.abortKind ≠ some .metadataUnavailable ∧
            r.degradations = failed.map degraded ∧
              ∃ answer, h.during .query = [⟨.query available s.metadataLimit, answer⟩])

/-- What a run makes of a query that never returns: it is aborted, and nothing is upgraded. -/
def QueryWithstood (h : History) (r : RunResult) : Prop :=
  ∀ (available : List String) (limit : Span)
    (answer : Answer (Timed (Except String (List Candidate)))),
    (⟨.query available limit, answer⟩ : Event) ∈ h → answer.value = .expired →
      r.outcome = .aborted ∧ r.abortKind = some .collaborator ∧ r.considered = [] ∧
        r.failures =
          [⟨.query, none, .collaborator, (RunError.query (timedOut limit)).message⟩]

/-- A guarded program is interrupted only if cancellation has been requested. -/
theorem Stands.cancelled_of_broken (hs : Stands s h₀ p l) {w : Watch}
    (watch : p.watch? s l = some w) (broken : w.program.Broken w.ledger.cancelled h) :
    (h₀ ++ h).cancelled = true := by
  have hcancelled := broken.cancelled
  rw [(Spot.ledger_watch? watch).2, hs.cancelled] at hcancelled
  rw [History.cancelled_append]
  exact hcancelled

theorem abortKind_abort (hkind : r.abortKind = none) (stage : Stage) (kind : FailureKind)
    (reason : String) : (r.abort stage kind reason).abortKind = some kind := by
  rw [RunResult.abort, hkind]
  rfl

theorem Refreshed.withstood (hr : Refreshed s h available r) (hsome : available ≠ [])
    {answer : Answer (Timed (Except String (List Candidate)))}
    (hquery : h.during .query = [⟨.query available s.metadataLimit, answer⟩])
    (hkind : r.abortKind ≠ some .metadataUnavailable) : MetadataWithstood s h r := by
  obtain ⟨time, listing, listed, refreshes, failed, htime, hduring, hlisting, hjudged, hfailed⟩ :=
    hr
  intro listing' refreshes' listed' hduring' hlisting'
  obtain ⟨hevent, rfl⟩ := List.cons_eq_cons.mp (hduring.symm.trans hduring')
  cases hevent
  obtain rfl : listed = listed' := Except.ok.inj (hlisting.symm.trans hlisting')
  exact ⟨time, available, failed, htime, hjudged, fun hnone => absurd hnone hsome,
    fun _ => ⟨hkind, hfailed, answer, hquery⟩⟩

theorem Unasked.withstood (hu : Unasked h₀ r)
    (hmetadata : (h₀ ++ h).during .metadata = h₀.during .metadata) :
    MetadataWithstood s (h₀ ++ h) r' := by
  intro listing refreshes listed hduring
  rw [hmetadata, hu.metadata] at hduring
  cases hduring

theorem Queried.withstood (hq : Queried s h₀ r)
    (hmetadata : (h₀ ++ h).during .metadata = h₀.during .metadata)
    (hquery : (h₀ ++ h).during .query = h₀.during .query)
    (hwarned : r'.degradations = r.degradations)
    (hkind : r'.abortKind ≠ some .metadataUnavailable) :
    MetadataWithstood s (h₀ ++ h) r' := by
  obtain ⟨available, answer, offered, hrefreshed, hsome, hduring, hanswer⟩ :=
    hq.append hmetadata hquery hwarned
  exact hrefreshed.withstood hsome hduring hkind

/-- **What a run makes of refreshes that never return.** -/
theorem Exit.metadata_withstood (exit : Exit s p l h l' reached) (hs : Stands s h₀ p l)
    (uncancelled : (h₀ ++ h).cancelled = false) :
    MetadataWithstood s (h₀ ++ h) l'.result := by
  have hquiet := fun phase => History.during_append_of_ne phase h₀ exit.keeps
  have hwarned := exit.degradations
  have hsighted := hs.sighted
  have hkind : l.result.abortKind = none := hs.pending.abortKind
  cases exit with
  -- nobody has cancelled
  | interrupted watch broken =>
    rw [hs.cancelled_of_broken watch broken] at uncancelled
    cases uncancelled
  | notDue answer due => exact Unasked.withstood hsighted (hquiet _ (by simp))
  | unavailable passed =>
    obtain ⟨hunasked, time, htime, rfl⟩ := hsighted
    intro listing refreshes listed hduring hlisting
    have hmetadata :=
      during_metadata_append hunasked.metadata (passed.keeps (keeps_ensureFresh _ _ _ _))
    obtain rfl := hmetadata.symm.trans hduring
    obtain ⟨as, fs, hjudged, hnone, hsome⟩ :=
      Metadata.leads_ensureFresh_judged passed.2.1 hlisting
    refine ⟨time, as, fs, List.mem_append_left _ htime, hjudged, fun hnil => ?_, fun hne => ?_⟩
    · obtain ⟨reason, heq⟩ := hnone hnil
      cases heq
      exact ⟨rfl, abortKind_abort hkind _ _ _, (hquiet .query (by simp)).trans hunasked.query⟩
    · obtain ⟨summary, heq, -, -⟩ := hsome hne
      cases heq
  | unanswered passed =>
    obtain ⟨hrefreshed, hsome, hduring⟩ := hsighted
    obtain ⟨answer, rest, rfl, rfl, hanswer⟩ := passed.2.1
    refine (hrefreshed.append (hquiet _ (by simp)) hwarned).withstood hsome
      (during_query_append hduring) ?_
    rw [Ledger.stop_eq, Ledger.result_update, Ledger.result_note, Ledger.result_visit,
      abortKind_abort hkind]
    rcases hvalue : answer.value with (reason | offered) | _ <;> rw [hvalue] at hanswer <;>
      cases hanswer <;> simp [RunError.kind]
  | upToDate passed | reportOnly passed _ _ =>
    obtain ⟨hrefreshed, hsome, hduring⟩ := hsighted
    obtain ⟨answer, offered, rfl, -, -⟩ := Upgrades.leads_list passed.2.1
    exact (hrefreshed.append (hquiet _ (by simp)) hwarned).withstood hsome
      (during_query_append hduring) fun hne => absurd (hkind.symm.trans hne) (by simp)
  | downloadOnly passed _ =>
    refine Queried.withstood hsighted (hquiet _ (by simp)) (hquiet _ (by simp)) hwarned ?_
    simp only [Ledger.result_update, Ledger.result_visit, recordDownloads_eq]
    exact fun hne => absurd (hkind.symm.trans hne) (by simp)
  | stateUnknown passed _ | rejected passed _ _ =>
    refine Queried.withstood hsighted (hquiet _ (by simp)) (hquiet _ (by simp)) hwarned ?_
    rw [Ledger.abort_eq, Ledger.result_update, Ledger.result_note, Ledger.result_visit,
      abortKind_abort hkind]
    simp
  | unadvised passed | advised passed =>
    exact Queried.withstood hsighted (hquiet _ (by simp)) (hquiet _ (by simp)) hwarned
      fun hne => absurd (hkind.symm.trans hne) (by simp)

theorem mem_during_query {limit : Span} {answer : Answer (Timed (Except String (List Candidate)))}
    (he : (⟨.query available limit, answer⟩ : Event) ∈ h) :
    (⟨.query available limit, answer⟩ : Event) ∈ h.during .query :=
  List.mem_filter.mpr ⟨he, rfl⟩

theorem QueryWithstood.of_nil (hquery : h.during .query = []) : QueryWithstood h r := by
  intro available limit answer he
  have hmem := mem_during_query he
  rw [hquery] at hmem
  cases hmem

theorem QueryWithstood.of_answered {limit : Span}
    {answer : Answer (Timed (Except String (List Candidate)))} {offered : List Candidate}
    (hquery : h.during .query = [⟨.query available limit, answer⟩])
    (hanswer : answer.value = .inTime (.ok offered)) : QueryWithstood h r := by
  intro available' limit' answer' he hexpired
  have hmem := mem_during_query he
  rw [hquery] at hmem
  cases List.mem_singleton.mp hmem
  rw [hanswer] at hexpired
  cases hexpired

/-- **What a run makes of a query that never returns.** -/
theorem Exit.query_withstood (exit : Exit s p l h l' reached) (hs : Stands s h₀ p l)
    (uncancelled : (h₀ ++ h).cancelled = false) : QueryWithstood (h₀ ++ h) l'.result := by
  have hquiet := fun phase => History.during_append_of_ne phase h₀ exit.keeps
  have hsighted := hs.sighted
  have hqueried : Queried s h₀ l.result → p.phase ≠ .query →
      QueryWithstood (h₀ ++ h) l'.result := by
    rintro ⟨available, answer, offered, -, -, hduring, hanswer⟩ hp
    exact .of_answered ((hquiet _ hp).trans hduring) hanswer
  cases exit with
  | interrupted watch broken =>
    rw [hs.cancelled_of_broken watch broken] at uncancelled
    cases uncancelled
  | notDue answer due =>
    exact .of_nil ((hquiet _ (by simp)).trans (Unasked.query hsighted))
  | unavailable passed => exact .of_nil ((hquiet _ (by simp)).trans hsighted.1.query)
  | unanswered passed =>
    obtain ⟨-, -, hduring⟩ := hsighted
    obtain ⟨hblank, -, -⟩ := hs.holds
    obtain ⟨answer, rest, rfl, rfl, hanswer⟩ := passed.2.1
    intro available' limit answer' he hexpired
    have hmem := mem_during_query he
    rw [during_query_append hduring] at hmem
    cases List.mem_singleton.mp hmem
    rw [hexpired] at hanswer
    cases hanswer
    refine ⟨rfl, abortKind_abort hs.pending.abortKind _ _ _, hblank.considered, ?_⟩
    show l.result.failures ++ _ = _
    rw [hblank.failures]
    rfl
  | upToDate passed | reportOnly passed _ _ =>
    obtain ⟨-, -, hduring⟩ := hsighted
    obtain ⟨answer, offered, rfl, hanswer, -⟩ := Upgrades.leads_list passed.2.1
    exact .of_answered (during_query_append hduring) hanswer
  | downloadOnly _ _ | stateUnknown _ _ | rejected _ _ _ | unadvised _ | advised _ =>
    exact hqueried hsighted (by simp)

/-! ### Fetches -/

/-- What a run makes of the fetches of a candidate. -/
structure FetchWithstood (d : DownloadConfig) (fetches : List Fetch) (outcome : Download.Outcome)
    (c : Candidate) (downloaded : List Candidate) (failures : List FailureRecord) : Prop where
  /-- One that never returns is an attempt that failed in passing, so that there is another one if
  that is allowed. -/
  tries : Download.Tries d fetches outcome
  /-- There are no more than that. -/
  allowed : fetches.length ≤ Download.Task.mostAttempts d
  /-- One that never returns and is the last was the last that was allowed, and is why the
  candidate failed. -/
  last : ∀ before, fetches = before ++ [.expired] →
    before.length + 1 = Download.Task.mostAttempts d ∧ outcome =
      .error ⟨(FetchError.transient (timedOut (Download.Task.limit d))).message,
        Download.Task.mostAttempts d⟩
  /-- If an artifact was kept, the candidate counts as downloaded. -/
  kept : ∀ path, outcome = .ok path → c ∈ downloaded
  /-- If none was, there is a failure that says why. -/
  failed : ∀ rejection, outcome = .error rejection → downloadFailure ⟨c, rejection⟩ ∈ failures

/-- What a run makes of fetches that never return, candidate by candidate. -/
def FetchesWithstood (s : Settings) (h : History) (r : RunResult) : Prop :=
  r.mode ≠ .reportOnly → ∀ (i : Nat) (c : Candidate), r.considered[i]? = some c →
    ∃ outcome, FetchWithstood s.config.download (h.fetches i) outcome c r.downloaded r.failures

/-- The downloads have been recorded, whatever came after. -/
def Loaded (s : Settings) (h : History) (r : RunResult) : Prop :=
  ∃ report, DownloadsReturned s h r.considered report ∧
    r.downloaded = report.succeeded.map Artifact.candidate ∧
      ∀ f ∈ report.failed, downloadFailure f ∈ r.failures

theorem fetches_during (i : Nat) (h : History) : (h.during .download).fetches i = h.fetches i := by
  rw [History.fetches, History.fetches, History.during, List.filterMap_filter]
  refine List.filterMap_congr fun e _ => ?_
  obtain ⟨q, answer⟩ := e
  cases q <;> rfl

theorem Loaded.withstood (hl : Loaded s h r) : FetchesWithstood s h r := by
  obtain ⟨report, hreturned, hdownloaded, hfailures⟩ := hl
  intro _ i c hi
  obtain ⟨outcome, htries, hok, herror⟩ := Download.leads_all_tried hreturned.2.1 hi
  rw [fetches_during] at htries
  refine ⟨outcome, htries, htries.length_le, fun before hlast => ?last, fun path hpath => ?kept,
    fun rejection hrejection => hfailures _ (herror rejection hrejection)⟩
  case last =>
    rw [hlast] at htries
    exact htries.of_expired
  case kept =>
    rw [hdownloaded]
    exact List.mem_map.mpr ⟨_, hok path hpath, rfl⟩

/-- Nothing happens to what is recorded. -/
theorem Loaded.append (hl : Loaded s h₀ r)
    (hdownload : (h₀ ++ h).during .download = h₀.during .download)
    (hconsidered : r'.considered = r.considered) (hdownloaded : r'.downloaded = r.downloaded)
    (hfailures : ∀ f ∈ r.failures, f ∈ r'.failures) : Loaded s (h₀ ++ h) r' := by
  obtain ⟨report, hreturned, hsame, hfailed⟩ := hl
  refine ⟨report, ?_, hdownloaded.trans hsame, fun f hf => hfailures _ (hfailed f hf)⟩
  rw [DownloadsReturned, hconsidered, hdownload]
  exact hreturned

theorem Recorded.loaded {report : Download.Report} (hr : Recorded report r)
    (hreturned : DownloadsReturned s h r.considered report) : Loaded s h r := by
  refine ⟨report, hreturned, hr.downloaded, fun f hf => ?_⟩
  rw [hr.failures]
  exact List.mem_map.mpr ⟨f, hf, rfl⟩

/-- A run that is about to decide on a reboot has recorded its downloads. -/
theorem Stands.loaded (hs : Stands s h .advice l) : Loaded s h l.result := by
  cases hs with
  | @on h₀ h _ _ _ _ before step =>
    have hholds := before.holds
    have hquiet := History.during_append_of_ne .download h₀ step.keeps
    cases step with
    | applied passed =>
      exact (hholds.1.loaded hholds.2.2).append (hquiet (by simp)) rfl rfl fun _ hf => hf
    | refused passed known partly =>
      exact (hholds.1.loaded hholds.2.2).append (hquiet (by simp)) rfl rfl
        fun _ hf => List.mem_append_left _ hf

theorem FetchesWithstood.of_blank (hconsidered : r.considered = []) : FetchesWithstood s h r := by
  intro _ i c hi
  rw [hconsidered] at hi
  cases hi

/-- **What a run makes of fetches that never return.** -/
theorem Exit.fetches_withstood (exit : Exit s p l h l' reached) (hs : Stands s h₀ p l)
    (uncancelled : (h₀ ++ h).cancelled = false) :
    FetchesWithstood s (h₀ ++ h) l'.result := by
  have hquiet := fun phase => History.during_append_of_ne phase h₀ exit.keeps
  have hholds := hs.holds
  cases exit with
  | interrupted watch broken =>
    rw [hs.cancelled_of_broken watch broken] at uncancelled
    cases uncancelled
  | notDue _ _ | unavailable _ | unanswered _ | upToDate _ => exact .of_blank hholds.1.considered
  | reportOnly passed _ mode => exact fun hmode => absurd mode hmode
  | downloadOnly passed mode =>
    obtain ⟨hoffered, -, hduring⟩ := hholds
    have hreturned := downloadsReturned hduring passed
    have hrecorded := hoffered.record hreturned
    rw [← considered_recordDownloads] at hreturned
    exact (hrecorded.loaded hreturned).withstood
  | stateUnknown _ _ | rejected _ _ _ =>
    refine Loaded.withstood ((hholds.1.loaded hholds.2.2).append (hquiet _ (by simp)) rfl rfl ?_)
    exact fun _ hf => List.mem_append_left _ hf
  | unadvised _ | advised _ =>
    exact (hs.loaded.append (hquiet _ (by simp)) rfl rfl fun _ hf => hf).withstood

/-! ### The transaction -/

/-- What a run makes of a transaction that never returns: it is aborted, and nothing counts as
applied. -/
def TransactionWithstood (h : History) (r : RunResult) : Prop :=
  ∀ (artifacts : List Artifact) (limit : Span)
    (answer : Answer (Timed (Except TransactionError Unit))),
    (⟨.apply artifacts limit, answer⟩ : Event) ∈ h → answer.value = .expired →
      r.outcome = .aborted ∧ r.abortKind = some .transactionStateUnknown ∧ r.applied = [] ∧
        r.failures.getLast? = some
          ⟨.apply, none, .transactionStateUnknown, (TransactionError.timeout limit).message⟩

/-- No transaction has been given up on. -/
def Unhung (h : History) : Prop :=
  ∀ (artifacts : List Artifact) (limit : Span)
    (answer : Answer (Timed (Except TransactionError Unit))),
    (⟨.apply artifacts limit, answer⟩ : Event) ∈ h → answer.value ≠ .expired

theorem Unhung.withstood (hu : Unhung h) : TransactionWithstood h r :=
  fun artifacts limit answer he hexpired => absurd hexpired (hu artifacts limit answer he)

theorem Unhung.append (hu : Unhung h) (hu' : Unhung h') : Unhung (h ++ h') := by
  intro artifacts limit answer he
  rcases List.mem_append.mp he with he | he
  · exact hu artifacts limit answer he
  · exact hu' artifacts limit answer he

theorem Unhung.of_ne {phase : Phase} (hh : ∀ e ∈ h, e.request.phase = phase)
    (hphase : phase ≠ .transaction) : Unhung h :=
  fun _ _ _ he => absurd (hh _ he).symm hphase

/-- A transaction that came to something known was not given up on. -/
theorem Unhung.of_leads {artifacts : List Artifact} {limit : Span}
    {outcome : Except TransactionError (List Candidate)}
    (hl : (Transaction.apply artifacts limit).Leads h outcome)
    (known : ∀ e, outcome = .error e → e.stateUnknown = false) : Unhung h := by
  intro artifacts' limit' answer he hexpired
  have hknown := known _ (Transaction.error_of_expired hl he hexpired)
  cases hknown

theorem Stands.unhung (hs : Stands s h p l) : Unhung h := by
  induction hs with
  | locked started answer locked =>
    intro artifacts limit answer' he
    simp at he
  | on before step ih =>
    refine ih.append ?_
    have hkeeps := step.keeps
    cases step with
    | applied passed =>
      exact .of_leads passed.2.1 fun e heq => nomatch heq
    | refused passed known partly =>
      exact .of_leads passed.2.1 fun e heq => by
        cases heq
        exact known
    | _ => exact .of_ne hkeeps (by simp)

/-- **What a run makes of a transaction that never returns.** -/
theorem Exit.transaction_withstood (exit : Exit s p l h l' reached) (hs : Stands s h₀ p l)
    (uncancelled : (h₀ ++ h).cancelled = false) :
    TransactionWithstood (h₀ ++ h) l'.result := by
  have hkeeps := exit.keeps
  have hholds := hs.holds
  cases exit with
  | interrupted watch broken =>
    rw [hs.cancelled_of_broken watch broken] at uncancelled
    cases uncancelled
  | stateUnknown passed unknown =>
    intro artifacts limit answer he hexpired
    rcases List.mem_append.mp he with he | he
    · exact absurd hexpired (hs.unhung artifacts limit answer he)
    · cases Transaction.error_of_expired passed.2.1 he hexpired
      exact ⟨rfl, abortKind_abort hs.pending.abortKind _ _ _, hholds.1.applied,
        List.getLast?_concat⟩
  | rejected passed known whole =>
    refine (hs.unhung.append (.of_leads passed.2.1 fun e heq => ?_)).withstood
    cases heq
    exact known
  | _ => exact (hs.unhung.append (.of_ne hkeeps (by simp))).withstood

/-! ### The stages together -/

/-- The phases of the requests that may never return, but for reports. -/
def laborious : List Phase := [.metadata, .query, .download, .transaction]

/-- What the stages of a run make of calls that never return. -/
structure StagesWithstood (s : Settings) (h : History) (r : RunResult) : Prop where
  /-- Of refreshes. -/
  metadata : MetadataWithstood s h r
  /-- Of a query. -/
  query : QueryWithstood h r
  /-- Of fetches. -/
  fetches : FetchesWithstood s h r
  /-- Of a transaction. -/
  transaction : TransactionWithstood h r

theorem Exit.withstood (exit : Exit s p l h l' reached) (hs : Stands s h₀ p l)
    (uncancelled : (h₀ ++ h).cancelled = false) : StagesWithstood s (h₀ ++ h) l'.result :=
  ⟨exit.metadata_withstood hs uncancelled, exit.query_withstood hs uncancelled,
    exit.fetches_withstood hs uncancelled, exit.transaction_withstood hs uncancelled⟩

/-- There is nothing to withstand in a run that never comes to its stages. -/
theorem StagesWithstood.of_idle (hh : ∀ e ∈ h, e.request.phase ∉ laborious)
    (hconsidered : r.considered = []) : StagesWithstood s h r where
  metadata := by
    intro listing refreshes listed hduring
    rw [History.during_eq_nil fun e he hphase => hh e he (by simp [hphase, laborious])] at hduring
    cases hduring
  query := .of_nil (History.during_eq_nil fun e he hphase => hh e he (by simp [hphase, laborious]))
  fetches := .of_blank hconsidered
  transaction := fun _ _ _ he => absurd (by simp [laborious, Request.phase]) (hh _ he)

/-- What the stages make of them is a matter of their deeds, and of the repositories that they warn
of. -/
theorem StagesWithstood.of_deeds (hw : StagesWithstood s h r) (hdeeds : r'.deeds = r.deeds)
    (hwarned : r'.degradations = r.degradations) : StagesWithstood s h r' := by
  have hquery : QueryWithstood h r.deeds := hw.query
  have hfetches : FetchesWithstood s h r.deeds := hw.fetches
  have htransaction : TransactionWithstood h r.deeds := hw.transaction
  rw [← hdeeds] at hquery hfetches htransaction
  refine ⟨?_, hquery, hfetches, htransaction⟩
  have houtcome : r'.outcome = r.outcome := outcome_congr hdeeds
  have hkind : r'.abortKind = r.abortKind := (congrArg RunResult.abortKind hdeeds :)
  intro listing refreshes listed hduring hlisting
  rw [houtcome, hkind, hwarned]
  exact hw.metadata listing refreshes listed hduring hlisting

/-- What comes after the stages has no part in it. -/
theorem StagesWithstood.append (hw : StagesWithstood s h r)
    (hh' : ∀ e ∈ h', e.request.phase ∉ laborious) : StagesWithstood s (h ++ h') r := by
  have hquiet : ∀ phase ∈ laborious, (h ++ h').during phase = h.during phase := by
    intro phase hphase
    have hnone := History.during_eq_nil fun e he heq => hh' e he (heq ▸ hphase)
    rw [History.during_append, hnone, List.append_nil]
  have hearly : ∀ e ∈ h ++ h', e.request.phase ∈ laborious → e ∈ h :=
    fun e he hphase => (List.mem_append.mp he).resolve_right fun he => hh' e he hphase
  refine ⟨?metadata, ?query, ?fetches, ?transaction⟩
  case metadata =>
    intro listing refreshes listed hduring hlisting
    rw [hquiet _ (by simp [laborious])] at hduring
    obtain ⟨time, available, failed, htime, hrest⟩ :=
      hw.metadata listing refreshes listed hduring hlisting
    rw [hquiet .query (by simp [laborious])]
    exact ⟨time, available, failed, List.mem_append_left _ htime, hrest⟩
  case query =>
    exact fun available limit answer he =>
      hw.query available limit answer (hearly _ he (by simp [laborious, Request.phase]))
  case fetches =>
    intro hmode i c hi
    rw [← fetches_during, hquiet _ (by simp [laborious]), fetches_during]
    exact hw.fetches hmode i c hi
  case transaction =>
    exact fun artifacts limit answer he =>
      hw.transaction artifacts limit answer (hearly _ he (by simp [laborious, Request.phase]))

/-- Closing asks for nothing that the stages ask for. -/
theorem Closing.unlaborious (hc : Closing s reached locked l h record) :
    ∀ e ∈ h, e.request.phase ∉ laborious := by
  intro e he hphase
  have hkeeps := hc.keeps e he
  simp only [laborious, List.mem_cons, List.not_mem_nil, or_false] at hkeeps hphase
  rcases hphase with heq | heq | heq | heq <;> simp [heq] at hkeeps

/-- **What the stages make of calls that never return.** -/
theorem stages_withstood_of_leads (hl : (run s).Leads h record)
    (uncancelled : h.cancelled = false) : StagesWithstood s h record.result := by
  cases course_of_leads hl with
  | contended started answer finished taken =>
    exact .of_idle (by simp [laborious, Request.phase]) rfl
  | unopened started answer failed closing =>
    refine .of_idle ?_ (congrArg RunResult.considered closing.deeds)
    simp only [List.forall_mem_cons]
    exact ⟨by simp [laborious, Request.phase], by simp [laborious, Request.phase],
      closing.unlaborious⟩
  | skipped started answer finished release locked trip =>
    have hskipped := trip.outcome_of_skipped
    have hconsidered := ((leads_consistent hl).2.1.idle (Or.inr hskipped)).1
    -- what such a run asks for is known, whatever is on the way to its exit
    obtain ⟨started', lock, marker, finished', release', heq, -⟩ := skipped_of_leads hl hskipped
    rw [heq]
    exact .of_idle (by simp [laborious, Request.phase]) hconsidered
  | @staged started answer h₁ h₂ l reached record locked trip due closing =>
    obtain ⟨h₀, h₃, p, l₁, hsplit, stands, exit⟩ :=
      trip.exists_exit _ (.locked started answer locked)
    have hhistory : (⟨.now, started⟩ : Event) :: ⟨.acquireLock, answer⟩ :: (h₁ ++ h₂) =
        (h₀ ++ h₃) ++ h₂ := by
      rw [← hsplit]
      rfl
    rw [hhistory] at uncancelled ⊢
    rw [History.cancelled_append, Bool.or_eq_false_iff] at uncancelled
    exact ((exit.withstood stands uncancelled.1).of_deeds closing.deeds closing.degradations).append
      closing.unlaborious

/-! ### Emitters -/

/-- What a run makes of emitters that never deliver: every emitter is asked to deliver, and the
result warns once of each that has not. What they are told has been settled before. -/
def EmittersWithstood (s : Settings) (h : History) (r : RunResult) : Prop :=
  ∀ (i : Nat) (told : RunResult) (report : Report) (limit : Span) (answer : Delivery),
    (⟨.emit i told report limit, answer⟩ : Event) ∈ h →
      told.deeds = r.deeds ∧ ∃ answers : List Delivery,
        answers.length = s.emitters.names.length ∧
        h.during .report = Emission.deliveries s.emitters.limit told report 0 answers ∧
        r.complaints = (s.emitters.names.zip answers).filterMap fun (name, answer) =>
          (Emission.complaint s.emitters.limit answer.value).map fun reason =>
            undelivered (name, reason)

/-- **What a run makes of emitters that never deliver.** -/
theorem emitters_withstood_of_leads (hl : (run s).Leads h record) :
    EmittersWithstood s h record.result := by
  intro i told report limit answer he
  have hdue : record.result.outcome ≠ .skipped := by
    intro hskipped
    obtain ⟨started, lock, marker, finished, release, rfl, -⟩ := skipped_of_leads hl hskipped
    simp at he
  have hfree : record.result.isAbortedWith .lockContention = false := by
    refine Bool.eq_false_iff.mpr fun hcontended => ?_
    obtain ⟨started, lock, finished, rfl⟩ := taken_of_leads hl hcontended
    simp at he
  have hasked : Request.emit i told report limit ∈ (h.during .report).map Event.request :=
    List.mem_map_of_mem (f := Event.request) (List.mem_filter.mpr ⟨he, rfl⟩)
  cases informed_of_leads hl hdue hfree with
  | withdrawn upToDate unwanted asked each unwarned =>
    rw [asked, Emission.map_request_withdrawals] at hasked
    obtain ⟨j, -, heq⟩ := List.mem_map.mp hasked
    cases heq
  | delivered wanted truthful asked tallied parted warned =>
    rw [asked, Emission.map_request_deliveries] at hasked
    obtain ⟨j, -, heq⟩ := List.mem_map.mp hasked
    cases heq
    refine ⟨truthful, _, tallied.length_eq, asked, ?_⟩
    rw [warned, tallied.failed_eq, List.map_filterMap]
    refine List.filterMap_congr fun pair _ => ?_
    rw [Option.map_map]
    rfl

/-! ### Runs -/

/-- What a run makes of calls that never return. -/
structure Withstood (s : Settings) (h : History) (record : Record) : Prop where
  /-- No more than of calls that return, but have failed for that reason. -/
  excused : (run s).Leads (h.map Event.excuse) record
  /-- What the stages make of them. -/
  stages : StagesWithstood s h record.result
  /-- What is made of emitters. -/
  emitters : EmittersWithstood s h record.result

theorem withstood_of_leads (hl : (run s).Leads h record) (uncancelled : h.cancelled = false) :
    Withstood s h record :=
  ⟨(lenient_run s).leads hl, stages_withstood_of_leads hl uncancelled,
    emitters_withstood_of_leads hl⟩

end

/-- **A run withstands calls that never return.** Whichever refreshes, queries, fetches,
transactions and emitters never return, the run ends; and of every history, whichever calls were
given up on in it, the run has made no more than that each has failed in the way of its stage. -/
theorem hangs_withstood (s : Settings) :
    (∀ {σ : Type} (world : Faltering σ) (start : σ),
      (∀ q state, (world q state).1 = none → q.mayHang = true) →
        (∀ q state answer, (world q state).1 = some answer → answer.cancelled = false) →
          ∃ h record, (run s).endure world start = some (h, record) ∧ (run s).Leads h record ∧
            Withstood s h record) ∧
    ∀ (h : History) (record : Record), (run s).Leads h record → h.cancelled = false →
      Withstood s h record := by
  refine ⟨fun world start limited uncancelled => ?_, fun _ _ => withstood_of_leads⟩
  obtain ⟨h, record, hends, hl, hcancelled⟩ :=
    Program.exists_endure limited uncancelled (run s) start
  exact ⟨h, record, hends, hl, withstood_of_leads hl hcancelled⟩

/-- Whether a request is made of something that works. -/
def isSpared : Request → Bool
  | .refresh repository _ => repository == "updates"
  | .query .. => true
  | .emit index .. => index == 0
  | _ => false

/-- A world in which one of two repositories, the first fetch, the transaction, and all emitters but
the first hang. The state is whether a fetch has been given up on. -/
def hanging : Faltering Bool
  | .listRepositories, b => (some (atOnce (.ok [⟨"updates", none⟩, ⟨"extras", none⟩])), b)
  | .begin _ (.fetch c dir limit), b =>
    (some (atOnce (if b then some (smoothWork (.fetch c dir limit)) else none)), b)
  | q, b =>
    if q.mayHang && !isSpared q then (none, b || q.phase = .download)
    else (some (smooth [bash] q ()).1, b)

theorem mayHang_of_hanging (q : Request) (b : Bool) (hq : (hanging q b).1 = none) :
    q.mayHang = true := by
  unfold hanging at hq
  split at hq
  · cases hq
  · cases hq
  · split at hq
    · rename_i hhung
      exact (Bool.and_eq_true_iff.mp hhung).1
    · cases hq

theorem cancelled_smooth (offered : List Candidate) (q : Request) (u : Unit) :
    (smooth offered q u).1.cancelled = false := by
  cases q <;> rfl

theorem cancelled_hanging (q : Request) (b : Bool) (answer : Answer q.Reply)
    (hq : (hanging q b).1 = some answer) : answer.cancelled = false := by
  unfold hanging at hq
  split at hq
  · cases hq
    rfl
  · cases hq
    rfl
  · split at hq
    · cases hq
    · cases hq
      exact cancelled_smooth _ _ _

/-- A run in that world ends. The repository drops out, the artifact is fetched at the second
attempt, the state after the transaction is unknown, and two emitters are warned of. -/
theorem hangs_withstood_hanging : ∃ h record,
    (run reporting).endure hanging false = some (h, record) ∧ Withstood reporting h record ∧
      record.result.abortKind = some .transactionStateUnknown ∧ record.result.applied = [] ∧
        record.result.downloaded = [bash] ∧ (h.fetches 0).length = 2 ∧
          record.result.degradations.length = 1 ∧ record.result.complaints.length = 2 := by
  have hwithstood := hangs_withstood reporting
  obtain ⟨h, record, hends, hl, -⟩ :=
    hwithstood.1 hanging false mayHang_of_hanging cancelled_hanging
  have hmade : ∀ made ∈ (run reporting).endure hanging false, made.1.cancelled = false ∧
      made.2.result.abortKind = some .transactionStateUnknown ∧ made.2.result.applied = [] ∧
        made.2.result.downloaded = [bash] ∧ (made.1.fetches 0).length = 2 ∧
          made.2.result.degradations.length = 1 ∧ made.2.result.complaints.length = 2 := by
    decide +kernel
  obtain ⟨hcancelled, hmade⟩ := hmade (h, record) hends
  exact ⟨h, record, hends, hwithstood.2 h record hl hcancelled, hmade⟩

end Run

end Upkeep
