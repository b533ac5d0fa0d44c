import Upkeep.Proofs.Run.Hangs
import Upkeep.Proofs.Verdicts

/-!
# What a run makes of metadata

A run refreshes metadata at most once, at the time that it has asked for just before, and takes what
the refresh comes to at its word. If there is a summary, the repositories that are left are queried,
once and all together, and the result warns of each that has dropped out, in order. Otherwise
nothing is queried, and the run is aborted.

What the refresh itself comes to is said in `Metadata.Ensured`; the run has no part in it. So the
argument here is only that the summary is neither lost nor changed on the way: the spots from the
query on are reached with the summary of this one refresh (`Surveyed`), and nothing that comes later
warns of repositories or asks about them.

## Main definitions

* `Run.Ascertained`: a run has refreshed metadata once, and what that came to.
* `Run.Surveyed`: what a run knows about metadata where it stands.
* `Run.Relied`: what a run has made of metadata at its end.

## Main results

* `Run.relied_of_leads`: what a run makes of metadata.
* `Run.freshness`: metadata from the listing of repositories to the query.
-/

namespace Upkeep.Run

/-- Metadata has been refreshed once, at the time that was asked for just before, and has come to an
outcome. -/
def Ascertained (s : Settings) (h : History) (outcome : Except RunError Metadata.Summary) : Prop :=
  ∃ (before : History) (time : Answer Instant) (asked after : History),
    h = before ++ ⟨.now, time⟩ :: (asked ++ after) ∧ h.during .metadata = asked ∧
      (Metadata.ensureFresh s.config.base.repos s.config.metadataMaxAge s.metadataLimit
        time.value).Leads asked outcome

/-- There is a summary of metadata, and the result warns of the repositories that dropped out. -/
structure Summed (s : Settings) (h : History) (summary : Metadata.Summary) (r : RunResult) :
    Prop where
  /-- The summary is what a refresh came to. -/
  ascertained : Ascertained s h (.ok summary)
  /-- The warnings are about what is in it. -/
  degradations : r.degradations = summary.failed.map degraded

/-- The repositories that are left have been queried, and no others, once. -/
def Consulted (s : Settings) (h : History) (r : RunResult) : Prop :=
  ∃ summary answer, Summed s h summary r ∧
    h.during .query = [⟨.query summary.available s.metadataLimit, answer⟩]

/-- What a run knows about metadata where it stands. -/
def Surveyed (s : Settings) (h : History) (r : RunResult) : Spot → Prop
  | .metadata now => Unasked h r ∧ ∃ (before : History) (time : Answer Instant),
      h = before ++ [⟨.now, time⟩] ∧ time.value = now
  | .query available => ∃ summary, Summed s h summary r ∧ summary.available = available ∧
      h.during .query = []
  | .download | .transaction _ | .advice => Consulted s h r
  | _ => Unasked h r

/-- Metadata is unavailable: nothing is queried, no repository is warned of, and the run is
aborted. -/
structure Unavailable (s : Settings) (h : History) (r : RunResult) : Prop where
  /-- The refresh came to an error. -/
  ascertained : ∃ e, Ascertained s h (.error e)
  /-- The run is aborted. -/
  outcome : r.outcome = .aborted
  /-- The reason that it gives is that one. -/
  kind : r.abortKind = some .metadataUnavailable
  /-- No repository is warned of. -/
  degradations : r.degradations = []
  /-- Nothing is queried. -/
  query : h.during .query = []

/-- What a run has made of metadata at its end, if it came to that. -/
def Relied (s : Settings) (h : History) (r : RunResult) : Prop :=
  h.during .metadata ≠ [] → Unavailable s h r ∨ Consulted s h r

section

variable {s : Settings} {p p' : Spot} {l l' : Ledger} {h h' h₀ : History} {reached : Reached}
  {record : Record} {r r' : RunResult} {summary : Metadata.Summary}
  {outcome : Except RunError Metadata.Summary}

/-! ### What comes later -/

theorem Ascertained.append (ha : Ascertained s h₀ outcome)
    (hmetadata : (h₀ ++ h).during .metadata = h₀.during .metadata) :
    Ascertained s (h₀ ++ h) outcome := by
  obtain ⟨before, time, asked, after, rfl, hduring, hl⟩ := ha
  exact ⟨before, time, asked, after ++ h, by simp, hmetadata.trans hduring, hl⟩

theorem Summed.append (hw : Summed s h₀ summary r)
    (hmetadata : (h₀ ++ h).during .metadata = h₀.during .metadata)
    (hwarned : r'.degradations = r.degradations) : Summed s (h₀ ++ h) summary r' :=
  ⟨hw.ascertained.append hmetadata, hwarned.trans hw.degradations⟩

theorem Consulted.append (hc : Consulted s h₀ r)
    (hmetadata : (h₀ ++ h).during .metadata = h₀.during .metadata)
    (hquery : (h₀ ++ h).during .query = h₀.during .query)
    (hwarned : r'.degradations = r.degradations) : Consulted s (h₀ ++ h) r' := by
  obtain ⟨summary, answer, hsummary, hduring⟩ := hc
  exact ⟨summary, answer, hsummary.append hmetadata hwarned, hquery.trans hduring⟩

/-- The repositories of a summary are queried. -/
theorem Summed.consulted {answer : Answer (Timed (Except String (List Candidate)))}
    (hw : Summed s h₀ summary r) (hquiet : h₀.during .query = [])
    (hwarned : r'.degradations = r.degradations) :
    Consulted s (h₀ ++ [⟨.query summary.available s.metadataLimit, answer⟩]) r' := by
  refine ⟨summary, answer, hw.append ?_ hwarned, during_query_append hquiet⟩
  exact History.during_append_of_ne .metadata h₀ (q := .query) (by simp [Request.phase]) (by simp)

theorem Unasked.relied (hu : Unasked h₀ r)
    (hmetadata : (h₀ ++ h).during .metadata = h₀.during .metadata) : Relied s (h₀ ++ h) r' :=
  fun hne => absurd (hmetadata.trans hu.metadata) hne

/-- A refresh is all that is known about metadata. -/
theorem ascertained_of_passed {time : Answer Instant} {before : History} {c : Bool}
    (hquiet : History.during .metadata (before ++ [⟨.now, time⟩]) = [])
    (passed : (Metadata.ensureFresh s.config.base.repos s.config.metadataMaxAge s.metadataLimit
      time.value).Passed c h outcome) : Ascertained s (before ++ [⟨.now, time⟩] ++ h) outcome :=
  ⟨before, time, h, [], by simp,
    during_metadata_append hquiet (passed.keeps (keeps_ensureFresh _ _ _ _)), passed.2.1⟩

theorem degradations_warnDegraded (failed : List (String × String)) (r : RunResult) :
    (warnDegraded failed r).degradations = r.degradations ++ failed.map degraded := by
  rw [warnDegraded_eq, RunResult.degradations, List.filter_append]
  congr 1
  refine List.filter_eq_self.mpr fun w hw => ?_
  obtain ⟨f, -, rfl⟩ := List.mem_map.mp hw
  rfl

/-! ### From spot to spot -/

/-- **What a step makes of metadata.** Only two steps find anything out; the others keep what has
been found out. -/
theorem Step.surveyed (step : Step s p l h p' l') (hinv : Surveyed s h₀ l.result p) :
    Surveyed s (h₀ ++ h) l'.result p' := by
  have hquiet := fun phase => History.during_append_of_ne phase h₀ step.keeps
  cases step with
  | due _ _ | awake _ | slept _ _ | hasty _ | waiting _ | impatient | online _ | overdue _ _ _
  | offline _ _ _ | rested _ =>
    exact Unasked.append hinv (hquiet _ (by simp)) (hquiet _ (by simp)) rfl
  | timed answer =>
    exact ⟨Unasked.append hinv (hquiet _ (by simp)) (hquiet _ (by simp)) rfl, h₀, answer, rfl, rfl⟩
  | refreshed passed =>
    obtain ⟨hunasked, before, time, rfl, rfl⟩ := hinv
    refine ⟨_, ⟨ascertained_of_passed hunasked.metadata passed, ?_⟩, rfl,
      (hquiet .query (by simp)).trans hunasked.query⟩
    have hempty : l.result.degradations = [] := hunasked.degradations
    rw [Ledger.result_update, Ledger.result_note, degradations_warnDegraded, hempty,
      List.nil_append]
  | offered passed some wanted =>
    obtain ⟨summary, hwarned, rfl, hduring⟩ := hinv
    obtain ⟨answer, offered, rfl, -, -⟩ := Upgrades.leads_list passed.2.1
    exact hwarned.consulted hduring rfl
  | downloaded passed wanted =>
    refine Consulted.append hinv (hquiet _ (by simp)) (hquiet _ (by simp)) ?_
    rw [Ledger.result_update, recordDownloads_eq]
    rfl
  | applied passed =>
    exact Consulted.append hinv (hquiet _ (by simp)) (hquiet _ (by simp)) rfl
  | refused passed known partly =>
    exact Consulted.append hinv (hquiet _ (by simp)) (hquiet _ (by simp)) rfl

theorem Stands.surveyed (hs : Stands s h p l) : Surveyed s h l.result p := by
  induction hs with
  | locked started answer locked => exact ⟨rfl, rfl, rfl⟩
  | on before step ih => exact step.surveyed ih

/-- **What an exit makes of metadata**, when nobody has cancelled. -/
theorem Exit.relied (exit : Exit s p l h l' reached) (hs : Stands s h₀ p l)
    (uncancelled : (h₀ ++ h).cancelled = false) : Relied s (h₀ ++ h) l'.result := by
  have hquiet := fun phase => History.during_append_of_ne phase h₀ exit.keeps
  have hwarned := exit.degradations
  have hsurveyed := hs.surveyed
  cases exit with
  | interrupted watch broken =>
    rw [hs.cancelled_of_broken watch broken] at uncancelled
    cases uncancelled
  | notDue answer due => exact Unasked.relied hsurveyed (hquiet _ (by simp))
  | @unavailable _ _ _ e passed =>
    obtain ⟨hunasked, before, time, rfl, rfl⟩ := hsurveyed
    obtain ⟨listing, rest, -, ⟨reason, heq⟩ | ⟨listed, summary, -, heq, -⟩⟩ :=
      Metadata.leads_ensureFresh_cases passed.2.1
    · cases heq
      exact fun _ => Or.inl
        { ascertained := ⟨_, ascertained_of_passed hunasked.metadata passed⟩
          outcome := rfl
          kind := abortKind_abort hs.pending.abortKind _ _ _
          degradations := hwarned.trans hunasked.degradations
          query := (hquiet .query (by simp)).trans hunasked.query }
    · cases heq
  | unanswered passed =>
    obtain ⟨summary, hsummary, rfl, hduring⟩ := hsurveyed
    obtain ⟨answer, rest, rfl, rfl, -⟩ := passed.2.1
    exact fun _ => Or.inr (hsummary.consulted hduring hwarned)
  | upToDate passed | reportOnly passed _ _ =>
    obtain ⟨summary, hsummary, rfl, hduring⟩ := hsurveyed
    obtain ⟨answer, offered, rfl, -, -⟩ := Upgrades.leads_list passed.2.1
    exact fun _ => Or.inr (hsummary.consulted hduring hwarned)
  | downloadOnly _ _ | stateUnknown _ _ | rejected _ _ _ | unadvised _ | advised _ =>
    exact fun _ => Or.inr
      (Consulted.append hsurveyed (hquiet _ (by simp)) (hquiet _ (by simp)) hwarned)

/-! ### To the end of the run -/

/-- What comes after the stages has no part in it. -/
theorem Relied.append (hr : Relied s h r) (hh' : ∀ e ∈ h', e.request.phase ∉ laborious)
    (hdeeds : r'.deeds = r.deeds) (hwarned : r'.degradations = r.degradations) :
    Relied s (h ++ h') r' := by
  have hquiet : ∀ phase ∈ laborious, (h ++ h').during phase = h.during phase := by
    intro phase hphase
    have hnone := History.during_eq_nil fun e he heq => hh' e he (heq ▸ hphase)
    rw [History.during_append, hnone, List.append_nil]
  have hmetadata := hquiet .metadata (by simp [laborious])
  have hquery := hquiet .query (by simp [laborious])
  intro hne
  rw [hmetadata] at hne
  refine (hr hne).imp (fun hu => ?_) fun hc => hc.append hmetadata hquery hwarned
  obtain ⟨e, hascertained⟩ := hu.ascertained
  exact
    { ascertained := ⟨e, hascertained.append hmetadata⟩
      outcome := (outcome_congr hdeeds).trans hu.outcome
      kind := (congrArg RunResult.abortKind hdeeds :).trans hu.kind
      degradations := hwarned.trans hu.degradations
      query := hquery.trans hu.query }

/-- There is nothing to rely on in a run that never comes to its stages. -/
theorem Relied.of_idle (hh : ∀ e ∈ h, e.request.phase ∉ laborious) : Relied s h r :=
  fun hne => absurd (History.during_eq_nil fun e he hphase =>
    hh e he (by simp [hphase, laborious])) hne

/-- **What a run makes of metadata**, when nobody has cancelled. -/
theorem relied_of_leads (hl : (run s).Leads h record) (uncancelled : h.cancelled = false) :
    Relied s h record.result := by
  cases course_of_leads hl with
  | contended started answer finished taken =>
    exact .of_idle (by simp [laborious, Request.phase])
  | unopened started answer failed closing =>
    refine .of_idle ?_
    simp only [List.forall_mem_cons]
    exact ⟨by simp [laborious, Request.phase], by simp [laborious, Request.phase],
      closing.unlaborious⟩
  | skipped started answer finished release locked trip =>
    obtain ⟨started', lock, marker, finished', release', heq, -⟩ :=
      skipped_of_leads hl trip.outcome_of_skipped
    rw [heq]
    exact .of_idle (by simp [laborious, Request.phase])
  | @staged started answer h₁ h₂ l reached record locked trip due closing =>
    obtain ⟨h₀, h₃, p, l₁, hsplit, stands, exit⟩ :=
      trip.exists_exit _ (.locked started answer locked)
    have hhistory : (⟨.now, started⟩ : Event) :: ⟨.acquireLock, answer⟩ :: (h₁ ++ h₂) =
        (h₀ ++ h₃) ++ h₂ := by
      rw [← hsplit]
      rfl
    rw [hhistory] at uncancelled ⊢
    rw [History.cancelled_append, Bool.or_eq_false_iff] at uncancelled
    exact (exit.relied stands uncancelled.1).append closing.unlaborious closing.deeds
      closing.degradations

end

/-- **Metadata from the listing to the query.** A refresh ends in every world, with one verdict about
each repository that the filter lets through. Metadata is too old if there is none, or if its age,
which is not that of something in the future, is at least the maximum. And a run that nobody cancels
takes what its refresh came to at its word. -/
theorem freshness (only : List String) (maxAge limit : Span) (now : Instant) :
    (∀ {σ : Type} (world : World σ) (start : σ), ∃ h r,
      (Metadata.ensureFresh only maxAge limit now).Leads h r ∧ world.Gives h start) ∧
    (∀ (h : History) (r : Except RunError Metadata.Summary),
      (Metadata.ensureFresh only maxAge limit now).Leads h r →
        Metadata.Ensured only maxAge limit now h r) ∧
    (∀ r : Repository, r.isStale maxAge now = true ↔
      r.lastRefreshed = none ∨ ∃ stamp, r.lastRefreshed = some stamp ∧
        0 ≤ now.nanosSince stamp ∧ (maxAge.nanos : Int) ≤ now.nanosSince stamp) ∧
    (∀ r : Repository, now.fraction < 1000000000 →
      (∀ stamp ∈ r.lastRefreshed, stamp.fraction < 1000000000) →
        (r.isStale maxAge now = true ↔
          r.lastRefreshed = none ∨ ∃ stamp, r.lastRefreshed = some stamp ∧
            stamp.count ≤ now.count ∧ (maxAge.nanos : Int) ≤ now.count - stamp.count)) ∧
    ∀ (s : Settings) (h : History) (record : Record), (run s).Leads h record →
      h.cancelled = false → Relied s h record.result :=
  ⟨fun world start => ⟨_, _, Program.leads_history world _ start, Program.gives_history world _ start⟩,
    fun _ _ => Metadata.ensured_of_leads, fun _ => Repository.isStale_iff,
    fun _ => Repository.isStale_iff_count, fun _ _ _ => relied_of_leads⟩

/-- A world in which one repository has never been refreshed and can be, the refresh of another one
hangs, and a third one is fresh. -/
def mixed : World Unit
  | .listRepositories, u =>
    (atOnce (.ok [⟨"updates", none⟩, ⟨"extras", none⟩, ⟨"base", some ⟨0, 0⟩⟩]), u)
  | .refresh id _, u => (atOnce (if id == "updates" then .inTime (.ok ()) else .expired), u)
  | q, u => smooth [] q u

/-- A run in that world asks for two refreshes, warns of one repository and queries the two
others. -/
theorem freshness_mixed : ∃ h record, (run applying).Leads h record ∧
    Relied applying h record.result ∧ (h.during .metadata).length = 3 ∧
      record.result.degradations.map FailureRecord.kind = [.partialMetadataDegradation] ∧
        (h.during .query).map (fun e => match e.request with
          | .query repositories _ => repositories
          | _ => []) = [["updates", "base"]] := by
  have hl := Program.leads_history mixed (run applying) ()
  have hmade : ((run applying).history mixed ()).cancelled = false ∧
      (((run applying).history mixed ()).during .metadata).length = 3 ∧
      ((run applying).run mixed ()).1.result.degradations.map FailureRecord.kind =
        [.partialMetadataDegradation] ∧
      (((run applying).history mixed ()).during .query).map (fun e => match e.request with
        | .query repositories _ => repositories
        | _ => []) = [["updates", "base"]] := by
    decide +kernel
  have hfreshness :=
    freshness [] applying.config.metadataMaxAge applying.metadataLimit ⟨0, 0⟩
  exact ⟨_, _, hl, hfreshness.2.2.2.2 applying _ _ hl hmade.1, hmade.2⟩

end Upkeep.Run
