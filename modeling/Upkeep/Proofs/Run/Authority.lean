import Upkeep.Proofs.Metadata
import Upkeep.Proofs.Run.Consistency

/-!
# What is installed was authorised

A transaction is judged by the history before it: which repositories were listed, refreshed and
queried, which artifacts were fetched and which of them passed their checks. That the right list
reaches the transaction is a matter of all stages together, so each of them hands its reason on:
the refresh why a repository may be relied on, the query why a candidate is authorised, the
downloads which artifacts were verified.

Candidates are judged by what they say, not by which repository was asked: the package manager may
answer a query with candidates of repositories that were not asked for.

## Main definitions

* `Authorised`, `Sanctioned`.

## Main results

* `leads_sanctioned`: a run applies at most once, and only what was authorised and verified.
-/

namespace Upkeep.Run

/-- The history has a reason to consider a candidate: its repository is relied on, no exclusion
matches its name, and it is in scope. -/
structure Authorised (s : Settings) (h : History) (c : Candidate) : Prop where
  /-- Its repository is allowed, and is fresh or was refreshed. -/
  relied : h.Relies s.config.base.repos s.config.metadataMaxAge c.repo
  /-- No exclusion that is a pattern matches its name. -/
  admitted : ∀ p ∈ Selection.patterns s.config.base.excludePkgs,
    Glob.matchesText p c.name = false
  /-- It is in scope. -/
  inScope : s.config.scope.matches? c = true

/-- If an event is a transaction, it is one that the history before it sanctions: it is of the
artifacts that the downloads came to. -/
def Sanctioned (s : Settings) (considered : List Candidate) (before : History) (e : Event) : Prop :=
  ∀ artifacts limit, e.request = .apply artifacts limit →
    s.config.mode = .apply ∧ artifacts ≠ [] ∧ artifacts = before.verified considered ∧
      (∃ report, DownloadsReturned s before considered report ∧ artifacts = report.succeeded) ∧
      ∀ a ∈ artifacts, Authorised s before a.candidate ∧ a.candidate.checksum.isSome = true ∧
        ∃ i, considered[i]? = some a.candidate ∧ before.Fetched i a.candidate a.path

/-- What is to be said of the transactions of a run, whose result so far is given. -/
structure Lawful (s : Settings) (h : History) (r : RunResult) : Prop where
  /-- There is at most one. -/
  once : (h.during .transaction).length ≤ 1
  /-- Each is sanctioned. -/
  sanctioned : h.Each (Sanctioned s r.considered)
  /-- Unless the mode is to apply, there is none. -/
  withheld : s.config.mode ≠ .apply → h.during .transaction = []
  /-- When upgrades are only reported, nothing is downloaded. -/
  reported : s.config.mode = .reportOnly → h.during .download = []

section

variable {s : Settings} {h h' h₀ : History} {r : RunResult} {report : Download.Report}
  {p p' : Spot} {l l' : Ledger} {reached : Reached} {record : Record}

theorem Authorised.append {c : Candidate} (ha : Authorised s h c) (h' : History) :
    Authorised s (h ++ h') c :=
  ⟨ha.relied.append h', ha.admitted, ha.inScope⟩

/-- What is no transaction needs no sanction. -/
theorem each_sanctioned {considered : List Candidate} (hh : h.during .transaction = []) :
    h.Each (Sanctioned s considered) := by
  refine History.each_of_forall fun e he before artifacts limit hrequest => ?_
  have hnone := List.filter_eq_nil_iff.mp hh e he
  simp [hrequest, Request.phase] at hnone

/-- A history without transactions and downloads is lawful. -/
theorem Lawful.of_quiet (htransaction : h.during .transaction = [])
    (hdownload : s.config.mode = .reportOnly → h.during .download = []) : Lawful s h r where
  once := by simp [htransaction]
  sanctioned := each_sanctioned htransaction
  withheld := fun _ => htransaction
  reported := hdownload

/-- What follows and is neither a transaction nor a download changes nothing. -/
theorem Lawful.append (hl : Lawful s h r) (h' : History)
    (htransaction : h'.during .transaction = []) (hdownload : h'.during .download = []) :
    Lawful s (h ++ h') r where
  once := by
    rw [History.during_append, htransaction, List.append_nil]
    exact hl.once
  sanctioned := by
    refine History.each_append hl.sanctioned (History.each_of_forall fun e he before => ?_)
    intro artifacts limit hrequest
    have hnone := List.filter_eq_nil_iff.mp htransaction e he
    simp [hrequest, Request.phase] at hnone
  withheld := by
    intro hmode
    rw [History.during_append, htransaction, List.append_nil]
    exact hl.withheld hmode
  reported := by
    intro hmode
    rw [History.during_append, hdownload, List.append_nil]
    exact hl.reported hmode

/-- What holds at each spot. -/
def Secure (s : Settings) (h : History) (p : Spot) (r : RunResult) : Prop :=
  r.mode = s.config.mode ∧
    match p with
    | .metadata now => h.during .transaction = [] ∧ h.during .download = [] ∧
      ∃ (h₁ : History) (time : Answer Instant), h = h₁ ++ [⟨.now, time⟩] ∧ time.value = now
    | .query available => h.during .transaction = [] ∧ h.during .download = [] ∧
      ∀ id ∈ available, h.Relies s.config.base.repos s.config.metadataMaxAge id
    | .download => h.during .transaction = [] ∧ h.during .download = [] ∧
      r.mode ≠ .reportOnly ∧ ∀ c ∈ r.considered, Authorised s h c
    | .transaction report => h.during .transaction = [] ∧ r.mode = .apply ∧
      (∀ c ∈ r.considered, Authorised s h c) ∧ DownloadsReturned s h r.considered report ∧
      report.succeeded = h.verified r.considered ∧
      ∀ a ∈ report.succeeded, a.candidate.checksum.isSome = true ∧
        ∃ i, r.considered[i]? = some a.candidate ∧ h.Fetched i a.candidate a.path
    | .advice => Lawful s h r
    | _ => h.during .transaction = [] ∧ h.during .download = []

/-- A repository that is listed right after the time was asked for is judged by that time. -/
theorem relies_of_passed {h₁ : History} {time : Answer Instant} {summary : Metadata.Summary}
    (hl : (Metadata.ensureFresh s.config.base.repos s.config.metadataMaxAge s.metadataLimit
      time.value).Leads h (.ok summary)) :
    ∀ id ∈ summary.available,
      History.Relies (h₁ ++ [⟨.now, time⟩] ++ h) s.config.base.repos s.config.metadataMaxAge
        id := by
  intro id hid
  rw [List.append_assoc]
  exact (Metadata.leads_ensureFresh hl id hid).append_left h₁

/-- What is selected from usable repositories is authorised. -/
theorem authorised_select {available : List String} {offered : List Candidate}
    (havailable : ∀ id ∈ available,
      h.Relies s.config.base.repos s.config.metadataMaxAge id) :
    ∀ c ∈ Selection.select offered s.config.scope available s.config.base.excludePkgs,
      Authorised s h c := by
  intro c hc
  obtain ⟨hrepo, hadmitted, hscope⟩ := Selection.wanted_iff.mp (Selection.mem_select.mp hc).2
  exact ⟨havailable _ hrepo, hadmitted, hscope⟩

/-- The verified artifacts of a history are those that were verified after the downloads began. -/
theorem verified_append {cs : List Candidate} (hh : h₀.during .download = []) :
    History.verified (h₀ ++ h) cs = History.verified h cs := by
  refine History.verified_append_of_settled? (fun e he => ?_) h cs
  have hphase : e.request.phase ≠ .download := by
    simpa using List.filter_eq_nil_iff.mp hh e he
  obtain ⟨request, answer⟩ := e
  cases request <;> first | rfl | exact absurd rfl hphase

/-- A transaction is asked for at most once, and only with artifacts. -/
theorem begins_apply {artifacts : List Artifact} {limit : Span}
    (hb : (Transaction.apply artifacts limit).Begins h) :
    h = [] ∨ artifacts ≠ [] ∧
      ∃ answer : Answer (Timed (Except TransactionError Unit)),
        h = [⟨.apply artifacts limit, answer⟩] := by
  rw [Transaction.apply] at hb
  cases h with
  | nil => exact Or.inl rfl
  | cons e h =>
    split at hb
    · exact hb.elim
    · rename_i hne
      obtain ⟨answer, rfl, hrest⟩ := hb
      cases h with
      | nil => exact Or.inr ⟨by simpa using hne, answer, rfl⟩
      | cons e' h => exact hrest.elim

/-- Whatever comes of the transaction, it is lawful. -/
theorem lawful_transaction {r' : RunResult} {limit : Span}
    (hmode : r.mode = s.config.mode)
    (hinv : h₀.during .transaction = [] ∧ r.mode = .apply ∧
      (∀ c ∈ r.considered, Authorised s h₀ c) ∧ DownloadsReturned s h₀ r.considered report ∧
      report.succeeded = h₀.verified r.considered ∧
      ∀ a ∈ report.succeeded, a.candidate.checksum.isSome = true ∧
        ∃ i, r.considered[i]? = some a.candidate ∧ h₀.Fetched i a.candidate a.path)
    (hb : (Transaction.apply report.succeeded limit).Begins h)
    (hconsidered : r'.considered = r.considered) : Lawful s (h₀ ++ h) r' := by
  obtain ⟨hnone, happly, hauthorised, hreturned, hsucceeded, hfetched⟩ := hinv
  rw [hmode] at happly
  rcases begins_apply hb with rfl | ⟨hne, answer, rfl⟩
  · rw [List.append_nil]
    exact .of_quiet hnone fun hreport => absurd (happly.symm.trans hreport) (by simp)
  · constructor
    · rw [History.during_append, hnone]
      exact Nat.le_refl 1
    · refine History.each_append (each_sanctioned hnone) (History.each_singleton ?_)
      rintro artifacts limit' heq
      cases heq
      rw [hconsidered, List.append_nil]
      refine ⟨happly, hne, hsucceeded, ⟨report, hreturned, rfl⟩, fun a ha => ?_⟩
      obtain ⟨hchecksum, i, hi, hfile⟩ := hfetched a ha
      exact ⟨hauthorised _ (List.mem_of_getElem? hi), hchecksum, i, hi, hfile⟩
    · exact fun hmode => absurd happly hmode
    · exact fun hreport => absurd (happly.symm.trans hreport) (by simp)

theorem Step.secure (step : Step s p l h p' l') (hinv : Secure s h₀ p l.result) :
    Secure s (h₀ ++ h) p' l'.result := by
  obtain ⟨hmode, hinv⟩ := hinv
  have htransaction := History.during_append_of_ne .transaction h₀ step.keeps
  have hdownload := History.during_append_of_ne .download h₀ step.keeps
  refine ⟨(congrArg (·.2.2.2) step.frame).trans hmode, ?_⟩
  cases step with
  | due _ _ | awake _ | slept _ _ | hasty _ | waiting _ | impatient | online _ | overdue _ _ _
  | offline _ _ _ | rested _ =>
    exact ⟨(htransaction (by simp)).trans hinv.1, (hdownload (by simp)).trans hinv.2⟩
  | timed answer =>
    exact ⟨(htransaction (by simp)).trans hinv.1, (hdownload (by simp)).trans hinv.2, h₀, answer,
      rfl, rfl⟩
  | refreshed passed =>
    obtain ⟨hnone, hno, h₁, time, rfl, rfl⟩ := hinv
    exact ⟨(htransaction (by simp)).trans hnone, (hdownload (by simp)).trans hno,
      relies_of_passed passed.2.1⟩
  | offered passed some wanted =>
    obtain ⟨hnone, hno, havailable⟩ := hinv
    obtain ⟨answer, offered, -, -, rfl⟩ := Upgrades.leads_list passed.2.1
    refine ⟨(htransaction (by simp)).trans hnone, (hdownload (by simp)).trans hno, wanted,
      fun c hc => ?_⟩
    exact (authorised_select havailable c hc).append h
  | downloaded passed wanted =>
    obtain ⟨hnone, hno, hreport, hauthorised⟩ := hinv
    obtain ⟨hsucceeded, hfetched⟩ := Download.leads_all_succeeded passed.2.1
    rw [Ledger.result_update, Ledger.result_note, Ledger.result_visit]
    refine ⟨(htransaction (by simp)).trans hnone, ?_, ?_, ?_, ?_, ?_⟩
    · rw [mode_recordDownloads]
      cases h : l.result.mode with
      | reportOnly => exact absurd h hreport
      | downloadOnly => exact absurd h wanted
      | apply => rfl
    · rw [considered_recordDownloads]
      exact fun c hc => (hauthorised c hc).append h
    · rw [considered_recordDownloads]
      exact downloadsReturned hno passed
    · rw [considered_recordDownloads, verified_append hno]
      exact hsucceeded
    · rw [considered_recordDownloads]
      intro a ha
      obtain ⟨hchecksum, i, hi, hfile⟩ := hfetched a ha
      exact ⟨hchecksum, i, hi, hfile.append_left h₀⟩
  | applied passed => exact lawful_transaction hmode hinv passed.2.1.begins rfl
  | refused passed known partly => exact lawful_transaction hmode hinv passed.2.1.begins rfl

/-- Whatever is interrupted, it is lawful. -/
theorem Secure.broken {w : Watch} (hinv : Secure s h₀ p l.result) (watch : p.watch? s l = some w)
    (broken : w.program.Broken w.ledger.cancelled h) : Lawful s (h₀ ++ h) l.result := by
  obtain ⟨hmode, hinv⟩ := hinv
  have hkeeps := broken.keeps (Spot.keeps_watch? watch)
  have htransaction := History.during_append_of_ne .transaction h₀ hkeeps
  have hdownload := History.during_append_of_ne .download h₀ hkeeps
  cases p with
  | transaction report =>
    cases watch
    exact lawful_transaction hmode hinv broken.begins rfl
  | advice =>
    exact hinv.append _ (History.during_eq_nil fun e he => by simp [hkeeps e he])
      (History.during_eq_nil fun e he => by simp [hkeeps e he])
  | download =>
    exact .of_quiet ((htransaction (by simp)).trans hinv.1)
      fun hreport => absurd (hmode.trans hreport) hinv.2.2.1
  | metadata _ | query _ =>
    exact .of_quiet ((htransaction (by simp)).trans hinv.1)
      fun _ => (hdownload (by simp)).trans hinv.2.1
  | gate | sleep | network | look _ | rest _ | refresh =>
    exact .of_quiet ((htransaction (by simp)).trans hinv.1)
      fun _ => (hdownload (by simp)).trans hinv.2

theorem Exit.lawful (exit : Exit s p l h l' reached) (hinv : Secure s h₀ p l.result) :
    Lawful s (h₀ ++ h) l'.result := by
  have htransaction := History.during_append_of_ne .transaction h₀ exit.keeps
  have hdownload := History.during_append_of_ne .download h₀ exit.keeps
  have hkeeps := exit.keeps
  cases exit with
  | interrupted watch broken =>
    have hlawful := hinv.broken watch broken
    rw [Ledger.stop_eq, Ledger.result_update, Ledger.result_note, (Spot.ledger_watch? watch).1]
    exact ⟨hlawful.once, hlawful.sanctioned, hlawful.withheld, hlawful.reported⟩
  | notDue answer due =>
    exact .of_quiet ((htransaction (by simp)).trans hinv.2.1)
      fun _ => (hdownload (by simp)).trans hinv.2.2
  | unavailable passed | unanswered passed | upToDate passed | reportOnly passed _ _ =>
    exact .of_quiet ((htransaction (by simp)).trans hinv.2.1)
      fun _ => (hdownload (by simp)).trans hinv.2.2.1
  | downloadOnly passed mode =>
    refine .of_quiet ((htransaction (by simp)).trans hinv.2.1) fun hreport => ?_
    exact absurd (mode.symm.trans (hinv.1.trans hreport)) (by simp)
  | stateUnknown passed unknown =>
    exact lawful_transaction hinv.1 hinv.2 passed.2.1.begins rfl
  | rejected passed known whole =>
    exact lawful_transaction hinv.1 hinv.2 passed.2.1.begins rfl
  | unadvised passed | advised passed =>
    have hlawful : Lawful s (h₀ ++ h) l.result :=
      hinv.2.append _ (History.during_eq_nil fun e he => by simp [hkeeps e he])
        (History.during_eq_nil fun e he => by simp [hkeeps e he])
    exact ⟨hlawful.once, hlawful.sanctioned, hlawful.withheld, hlawful.reported⟩

/-- Once a run has taken the lock, its stages are lawful. -/
theorem Trip.lawful {started : Answer Instant} {answer : Answer (Except LockError Unit)}
    (ht : Trip s .gate (begun s started answer) h l reached) :
    Lawful s (⟨.now, started⟩ :: ⟨.acquireLock, answer⟩ :: h) l.result :=
  ht.preserves (fun h p l => Secure s h p l.result) (fun h l _ => Lawful s h l.result)
    (fun step hinv => step.secure hinv) (fun exit hinv => exit.lawful hinv) [_, _]
    ⟨rfl, rfl, rfl⟩

/-- Closing is lawful. -/
theorem Closing.lawful {locked : Bool} (hc : Closing s reached locked l h record) (h₀ : History)
    (hl : Lawful s h₀ l.result) : Lawful s (h₀ ++ h) record.result := by
  have hconsidered : record.result.considered = l.result.considered := by
    show record.result.deeds.considered = _
    rw [hc.deeds]
    rfl
  have hquiet : ∀ phase, phase ∉ [Phase.clock, .report, .persist, .reboot, .lock] →
      h.during phase = [] := by
    refine fun phase hphase => History.during_eq_nil fun e he heq => hphase ?_
    rw [← heq]
    exact hc.keeps e he
  have hlawful := hl.append _ (hquiet .transaction (by decide)) (hquiet .download (by decide))
  exact ⟨hlawful.once, hconsidered ▸ hlawful.sanctioned, hlawful.withheld, hlawful.reported⟩

/-- A run is lawful. -/
theorem lawful_of_leads (hl : (run s).Leads h record) : Lawful s h record.result := by
  cases course_of_leads hl with
  | contended started answer finished taken => exact .of_quiet rfl fun _ => rfl
  | unopened started answer failed closing =>
    exact closing.lawful [_, _] (.of_quiet rfl fun _ => rfl)
  | skipped started answer finished release locked trip =>
    have hlawful := trip.lawful.append [⟨.now, finished⟩, ⟨.releaseLock, release⟩] rfl rfl
    exact ⟨hlawful.once, hlawful.sanctioned, hlawful.withheld, hlawful.reported⟩
  | staged started answer locked trip due closing => exact closing.lawful _ trip.lawful

/-- **A run applies at most once, only when it is to apply, and exactly what was verified** before
in the order in which it was considered; and every candidate of it was authorised. A run that only
reports upgrades does not download any. -/
theorem leads_sanctioned (hl : (run s).Leads h record) :
    (h.during .transaction).length ≤ 1 ∧
      (∀ before artifacts limit after answer,
        h = before ++ ⟨.apply artifacts limit, answer⟩ :: after →
          s.config.mode = .apply ∧ artifacts ≠ [] ∧
            artifacts = before.verified record.result.considered ∧
            ∀ a ∈ artifacts, Authorised s before a.candidate ∧
              a.candidate.checksum.isSome = true ∧
              ∃ i, record.result.considered[i]? = some a.candidate ∧
                before.Fetched i a.candidate a.path) ∧
      (s.config.mode ≠ .apply → h.during .transaction = []) ∧
      (s.config.mode = .reportOnly → h.during .download = []) := by
  have hlawful := lawful_of_leads hl
  refine ⟨hlawful.once, fun before artifacts limit after answer heq => ?_, hlawful.withheld,
    hlawful.reported⟩
  obtain ⟨hmode, hne, hverified, -, hauthorised⟩ :=
    hlawful.sanctioned before _ after heq artifacts limit rfl
  exact ⟨hmode, hne, hverified, hauthorised⟩

/-- A run that goes smoothly is such a run, and it does apply. -/
theorem leads_sanctioned_smooth : ∃ h record, (run applying).Leads h record ∧
    record.result.applied = [bash] ∧ (h.during .transaction).length ≤ 1 := by
  have hl := Program.leads_history (smooth [bash]) (run applying) ()
  exact ⟨_, _, hl, by decide +kernel, (leads_sanctioned hl).1⟩

end

end Upkeep.Run
