import Upkeep.Proofs.Run.Containment
import Upkeep.Proofs.Run.Notice

/-!
# When a run reboots

The reboot command is the last thing a run asks for before it lets go of the lock, and three places
have a say in it: the stage that advises on a reboot, the configuration, and what is known about the
installed packages at the end. Only the advice at the end of the stages can recommend a reboot, and
by then the run was not aborted; so a run that reboots has applied something, has reported it to
every emitter, and has tried to write the marker.

What goes wrong on the way is contained. A reboot command that fails, or a host that cannot say
whether a reboot is needed, adds a warning. To say that nothing else changes, such a run is compared
with the one in which the command succeeds, or the host says that no reboot is needed: the same
requests are made, and the results differ in the warning.

## Main definitions

* `Reboot.Advice`: what a run finds out about a reboot.
* `Needed`, `Advised`: what the stages leave to be said about a reboot.
* `Warranted`: what comes before a reboot.
* `Orderly`: how a run deals with a reboot.

## Main results

* `advised_of_trip`: only the last stage recommends a reboot.
* `leads_orderly`: every run is orderly.
-/

namespace Upkeep

namespace Reboot

/-- What a run finds out about a reboot. -/
inductive Advice (policy : RebootPolicy) (applied : List Candidate) :
    History → Except String RebootAdvice → Prop
  /-- Nothing was applied, or nothing is ever rebooted. -/
  | spared (idle : applied = [] ∨ policy = .never) :
      Advice policy applied [] (.ok RebootAdvice.none)
  /-- Whatever was applied needs a reboot. -/
  | changed (some : applied ≠ []) (policy_eq : policy = .whenChanged) :
      Advice policy applied [] (.ok (recommend (toString applied.length ++ " packages updated")))
  /-- The host says that no reboot is needed. -/
  | cleared {answer : Answer (Except String (Option String))} (some : applied ≠ [])
      (policy_eq : policy = .whenNeeded) (cleared : answer.value = .ok none) :
      Advice policy applied [⟨.rebootReason applied, answer⟩] (.ok RebootAdvice.none)
  /-- The host says why a reboot is needed. -/
  | needed {answer : Answer (Except String (Option String))} {why : String} (some : applied ≠ [])
      (policy_eq : policy = .whenNeeded) (needed : answer.value = .ok (.some why)) :
      Advice policy applied [⟨.rebootReason applied, answer⟩] (.ok (recommend why))
  /-- The host cannot say. -/
  | failed {answer : Answer (Except String (Option String))} {reason : String}
      (some : applied ≠ []) (policy_eq : policy = .whenNeeded)
      (failed : answer.value = .error reason) :
      Advice policy applied [⟨.rebootReason applied, answer⟩] (.error reason)

/-- **What a run can find out about a reboot.** -/
theorem leads_advise {policy : RebootPolicy} {applied : List Candidate} {h : History}
    {r : Except String RebootAdvice} :
    (advise policy applied).Leads h r ↔ Advice policy applied h r := by
  constructor
  · intro hl
    unfold advise at hl
    split at hl
    · rename_i hnone
      obtain ⟨rfl, rfl⟩ := hl
      exact .spared (Or.inl (by simpa using hnone))
    · rename_i hsome
      have hsome : applied ≠ [] := by simpa using hsome
      cases policy with
      | never =>
        obtain ⟨rfl, rfl⟩ := hl
        exact .spared (Or.inr rfl)
      | whenChanged =>
        obtain ⟨rfl, rfl⟩ := hl
        exact .changed hsome rfl
      | whenNeeded =>
        obtain ⟨answer, rest, rfl, rfl, rfl⟩ := hl
        rcases hanswer : answer.value with reason | _ | why
        · exact .failed hsome rfl hanswer
        · exact .cleared hsome rfl hanswer
        · exact .needed hsome rfl hanswer
  · intro ha
    unfold advise
    cases ha with
    | spared idle =>
      split
      · exact ⟨rfl, rfl⟩
      · rename_i hsome
        obtain rfl := idle.resolve_left (by simpa using hsome)
        exact ⟨rfl, rfl⟩
    | changed some policy_eq =>
      rw [if_neg (by simpa using some), policy_eq]
      exact ⟨rfl, rfl⟩
    | cleared some policy_eq value | needed some policy_eq value | failed some policy_eq value =>
      rw [if_neg (by simpa using some), policy_eq]
      exact ⟨_, [], rfl, rfl, by rw [value]⟩

/-- About a reboot the host is asked once at most. -/
theorem length_le_of_begins {policy : RebootPolicy} {applied : List Candidate} {h : History}
    (hb : (advise policy applied).Begins h) : h.length ≤ 1 := by
  have hnone : ∀ r : Except String RebootAdvice, (Program.done r).Begins h → h.length ≤ 1 := by
    intro r hb
    cases h with
    | nil => simp
    | cons e h => exact hb.elim
  unfold advise at hb
  split at hb
  · exact hnone _ hb
  · cases policy with
    | never | whenChanged => exact hnone _ hb
    | whenNeeded =>
      cases h with
      | nil => simp
      | cons e h =>
        obtain ⟨answer, rfl, hrest⟩ := hb
        cases h with
        | nil => simp
        | cons e h => exact hrest.elim

end Reboot

namespace RunResult

/-- A result before closing added to it: there may be more warnings since, and a reboot may have
been triggered. -/
structure Precedes (r r' : RunResult) : Prop where
  /-- The warnings are still there, before any others. -/
  warnings : r.warnings <+: r'.warnings
  /-- Everything else is the same, but for the reboot. -/
  same : r = { r' with
    warnings := r.warnings
    reboot := { r'.reboot with triggered := r.reboot.triggered } }

theorem Precedes.refl (r : RunResult) : r.Precedes r := ⟨List.prefix_rfl, rfl⟩

theorem Precedes.trans {r r' r'' : RunResult} (h : r.Precedes r') (h' : r'.Precedes r'') :
    r.Precedes r'' := by
  refine ⟨h.warnings.trans h'.warnings, ?_⟩
  rw [h.same, h'.same]

/-- Warnings may be added. -/
theorem precedes_append (r : RunResult) (ws : List FailureRecord) :
    r.Precedes { r with warnings := r.warnings ++ ws } :=
  ⟨List.prefix_append _ _, rfl⟩

/-- A reboot may be triggered. -/
theorem precedes_triggered (r : RunResult) (triggered : Bool) :
    r.Precedes { r with reboot := { r.reboot with triggered := triggered } } :=
  ⟨List.prefix_rfl, rfl⟩

end RunResult

namespace Run

/-- A reboot is needed, going by what a run did and by what the host said. -/
structure Needed (s : Settings) (h : History) (r : RunResult) : Prop where
  /-- Something may be rebooted for. -/
  policy : s.config.commands.reboot ≠ .never
  /-- Something was applied. -/
  applied : r.applied ≠ []
  /-- The run did what it was asked, or some of it. -/
  outcome : r.outcome = .completed ∨ r.outcome = .partialFailure
  /-- If the host is to say, it was asked about just what was applied, and said why. -/
  said : s.config.commands.reboot = .whenNeeded →
    ∃ (answer : Answer (Except String (Option String))) (why : String),
      h.during .advice = [⟨.rebootReason r.applied, answer⟩] ∧ answer.value = .ok (some why) ∧
        r.reboot.reason = why

/-- What the stages leave to be said about a reboot. -/
structure Advised (s : Settings) (h : History) (reached : Reached) (r : RunResult) : Prop where
  /-- There was no reboot yet. -/
  untriggered : r.reboot.triggered = false
  /-- A reboot is recommended if it is needed, at the end of the stages. -/
  needed : r.reboot.recommended = true → reached = .queried ∧ Needed s h r

section

variable {s : Settings} {p p' : Spot} {l l' l₁ l₂ : Ledger} {h h₀ h₁ h₂ before after : History}
  {reached : Reached} {locked : Bool} {record : Record}

/-! ### What the stages say -/

/-- No stage follows the advice. -/
theorem Step.ne_advice (step : Step s p l h p' l') : p.phase ≠ .advice := by
  cases step <;> simp

theorem Step.reboot (step : Step s p l h p' l') : l'.result.reboot = l.result.reboot := by
  cases step with
  | refreshed passed => rw [Ledger.result_update, warnDegraded_eq, Ledger.result_note]
  | downloaded passed wanted => rw [Ledger.result_update, recordDownloads_eq]; rfl
  | _ => rfl

theorem advised_of_none (h : History) (reached : Reached) {r : RunResult}
    (hr : r.reboot = RebootAdvice.none) : Advised s h reached r := by
  refine ⟨by rw [hr]; rfl, fun hrecommended => ?_⟩
  rw [hr] at hrecommended
  cases hrecommended

theorem advised_of_exit (exit : Exit s p l h l' reached) (hpending : Pending h₀ p l.result)
    (hnone : l.result.reboot = RebootAdvice.none) (hquiet : h₀.during .advice = []) :
    Advised s (h₀ ++ h) reached l'.result := by
  have hkeeps : p.phase = .advice → ∀ e ∈ h, e.request.phase = .advice :=
    fun hp e he => (exit.keeps e he).trans hp
  cases exit with
  | interrupted watch broken =>
    refine advised_of_none _ _ ?_
    rw [Ledger.stop_eq, Ledger.result_update, Ledger.result_note, (Spot.ledger_watch? watch).1]
    exact hnone
  | downloadOnly passed mode =>
    refine advised_of_none _ _ ?_
    simp only [Ledger.result_update, Ledger.result_visit, recordDownloads_eq]
    exact hnone
  | advised passed =>
    have hduring : History.during .advice (h₀ ++ h) = h := by
      rw [History.during_append, hquiet, List.nil_append, History.during_eq_self (hkeeps rfl)]
    cases Reboot.leads_advise.mp passed.2.1 with
    | spared _ | cleared _ _ _ => exact advised_of_none _ _ rfl
    | changed some policy_eq =>
      refine ⟨rfl, fun _ => ⟨rfl, by simp [policy_eq], some, hpending.outcome, ?_⟩⟩
      intro hneeded
      rw [policy_eq] at hneeded
      cases hneeded
    | needed some policy_eq needed =>
      exact ⟨rfl, fun _ => ⟨rfl, by simp [policy_eq], some, hpending.outcome,
        fun _ => ⟨_, _, hduring, needed, rfl⟩⟩⟩
  | _ => exact advised_of_none _ _ hnone

/-- **Only the last stage recommends a reboot**, and only when it is needed. -/
theorem advised_of_trip {started : Answer Instant} {answer : Answer (Except LockError Unit)}
    (ht : Trip s .gate (begun s started answer) h l reached) :
    Advised s (⟨.now, started⟩ :: ⟨.acquireLock, answer⟩ :: h) reached l.result := by
  refine ht.preserves
    (fun h p l => Pending h p l.result ∧ l.result.reboot = RebootAdvice.none ∧
      h.during .advice = [])
    (fun h l reached => Advised s h reached l.result) ?_ ?_ [_, _]
    ⟨⟨rfl, Or.inl rfl, rfl⟩, rfl, rfl⟩
  · rintro h₀ p l h p' l' step ⟨hpending, hnone, hquiet⟩
    refine ⟨step.pending hpending, step.reboot.trans hnone, ?_⟩
    rw [History.during_append_of_ne .advice h₀ step.keeps step.ne_advice, hquiet]
  · rintro h₀ p l h l' reached exit ⟨hpending, hnone, hquiet⟩
    exact advised_of_exit exit hpending hnone hquiet

/-! ### How a run that closes deals with a reboot -/

/-- What comes before a reboot, in a run that comes to a result. -/
structure Warranted (s : Settings) (before : History) (command : String) (r : RunResult) :
    Prop where
  /-- Reboots are to be triggered. -/
  configured : s.config.commands.triggerReboot = true
  /-- The command is the configured one. -/
  command : command = s.config.commands.rebootCommand
  /-- A reboot is needed. -/
  needed : Needed s before r
  /-- Every emitter was asked to deliver the one report of what the run did. -/
  reported : ∃ (told : RunResult) (answers : List Delivery), told.deeds = r.deeds ∧
    answers.length = s.emitters.names.length ∧
      before.during .report =
        Emission.deliveries s.emitters.limit told (Report.render told) 0 answers
  /-- The run has tried to write the marker. -/
  marked : ∃ (time : Instant) (answer : Answer (Option String)),
    before.during .persist = [⟨.writeMarker time, answer⟩]

theorem Persisted.reboot (hp : Persisted reached l h l') :
    l'.result.reboot = l.result.reboot := by
  cases hp with
  | spared _ | written _ _ _ _ | unwritten _ _ _ _ => rfl

theorem Persisted.precedes (hp : Persisted reached l h l') :
    l.result.Precedes l'.result := by
  cases hp with
  | spared _ | written _ _ _ _ => exact .refl _
  | unwritten _ _ _ _ => exact RunResult.precedes_append _ _

theorem Rebooted.precedes (hr : Rebooted s l h l') : l.result.Precedes l'.result := by
  cases hr with
  | spared _ => exact .refl _
  | triggered _ _ _ => exact RunResult.precedes_triggered _ _
  | failed _ _ _ => exact RunResult.precedes_append _ _

/-- What is announced precedes the result that is returned. -/
theorem precedes_closing {now : Answer Instant} {persistence reboot : History}
    {failed : List (String × String)}
    (persisted : Persisted reached ((announced l now).update (warnUndelivered failed)) persistence
      l₁) (rebooted : Rebooted s l₁ reboot l₂) (release : History) :
    (announced l now).result.Precedes (finishAt (l₂.note release) now.value).result := by
  have htold : (announced l now).result.Precedes l₂.result := by
    refine .trans ?_ (persisted.precedes.trans rebooted.precedes)
    rw [Ledger.result_update, warnUndelivered_eq]
    exact RunResult.precedes_append _ _
  have hfinished : l₂.result.finishedAt = some now.value := by
    rw [rebooted.finishedAt, persisted.finishedAt, Ledger.result_update, warnUndelivered_eq]
    rfl
  have hsame : (finishAt (l₂.note release) now.value).result = l₂.result := by
    simp only [finishAt, Ledger.result_update, Ledger.result_note, hfinished]
    rw [Option.getD_some, ← hfinished]
  rwa [hsame]

/-- The second record is the first one, but for a reboot command that failed. -/
def Unrebooted (reason : String) (record record' : Record) : Prop :=
  record'.history = record.history ∧ record'.result =
    { record.result with
      warnings := record.result.warnings ++
        [⟨.reboot, none, .collaborator, "reboot command failed: " ++ reason⟩]
      reboot := { record.result.reboot with triggered := false } }

/-- How a run deals with a reboot. -/
inductive Rebooting (s : Settings) : History → Record → Prop
  /-- There is none. -/
  | spared {h : History} {record : Record} (quiet : h.during .reboot = [])
      (untriggered : record.result.reboot.triggered = false) : Rebooting s h record
  /-- It asks for one, once. Had the command not failed, the run would have gone on in the same way,
  with a warning less. -/
  | tried {before after : History} {record : Record} (answer : Answer (Except String Unit))
      (first : before.during .reboot = []) (last : after.during .reboot = [])
      (warranted : Warranted s before s.config.commands.rebootCommand record.result)
      (triggered : record.result.reboot.triggered = true ↔ answer.value = .ok ())
      (contained : ∀ reason, answer.value = .error reason → ∃ record',
        (run s).Leads (before ++ ⟨.reboot s.config.commands.rebootCommand,
          { answer with value := .ok () }⟩ :: after) record' ∧
            record'.result.reboot.triggered = true ∧ Unrebooted reason record' record) :
      Rebooting s (before ++ ⟨.reboot s.config.commands.rebootCommand, answer⟩ :: after) record

theorem Rebooting.once (hr : Rebooting s h record) : (h.during .reboot).length ≤ 1 := by
  cases hr with
  | spared quiet untriggered => simp [quiet]
  | tried answer first last warranted triggered contained =>
    rename_i before after
    have hsingle : History.during .reboot
        (⟨.reboot s.config.commands.rebootCommand, answer⟩ :: after) =
          ⟨.reboot s.config.commands.rebootCommand, answer⟩ :: after.during .reboot := rfl
    rw [History.during_append, first, List.nil_append, hsingle, last]
    exact Nat.le_refl 1

/-- A reboot that a run asks for is the one that it tries. -/
theorem Rebooting.of_split {command : String} {answer : Answer (Except String Unit)}
    (hr : Rebooting s (before ++ ⟨.reboot command, answer⟩ :: after) record) :
    Warranted s before command record.result ∧
      (record.result.reboot.triggered = true ↔ answer.value = .ok ()) ∧
      ∀ reason, answer.value = .error reason → ∃ record',
        (run s).Leads (before ++ ⟨.reboot command, { answer with value := .ok () }⟩ :: after)
          record' ∧ record'.result.reboot.triggered = true ∧ Unrebooted reason record' record := by
  have hquiet : ∀ {h : History}, h.during .reboot = [] → ∀ e ∈ h, e.request.phase ≠ .reboot :=
    fun hnil e he hphase => List.filter_eq_nil_iff.mp hnil e he (by simpa using hphase)
  generalize hsplit : before ++ ⟨.reboot command, answer⟩ :: after = h at hr
  cases hr with
  | spared quiet untriggered =>
    have he : (⟨.reboot command, answer⟩ : Event) ∈ h := by simp [← hsplit]
    exact absurd rfl (hquiet quiet _ he)
  | tried answer' first last warranted triggered contained =>
    obtain ⟨rfl, hevent, rfl⟩ := History.append_cons_inj hsplit rfl (hquiet first) (hquiet last)
    cases hevent
    exact ⟨warranted, triggered, contained⟩

/-- What a run has asked for when it comes to a reboot. -/
theorem during_closing {now : Answer Instant} {emission persistence : History} {phase : Phase}
    (hemission : ∀ e ∈ emission, e.request.phase = .report) (hclock : phase ≠ .clock)
    (hreport : phase ≠ .report) :
    (h ++ ⟨.now, now⟩ :: (emission ++ persistence)).during phase =
      h.during phase ++ persistence.during phase := by
  have hnow : ∀ e ∈ ([⟨.now, now⟩] : History), e.request.phase = .clock := by simp [Request.phase]
  rw [List.append_cons, ← List.append_assoc, History.during_append,
    History.during_append_of_ne phase _ hemission hreport.symm,
    History.during_append_of_ne phase _ hnow hclock.symm]

/-- A reboot that is due is warranted. -/
theorem warranted_of_due {now : Answer Instant} {emission persistence : History}
    {summary : Emission.Summary} {r : RunResult} (early : Early h)
    (advised : Advised s h reached l.result)
    (emitted : (Emission.report s.emitters (announced l now).result).Leads emission summary)
    (persisted : Persisted reached ((announced l now).update (warnUndelivered summary.failed))
      persistence l₁)
    (due : reboots s l₁.result = true) (hdeeds : r.deeds = l.result.deeds)
    (hreason : r.reboot.reason = l.result.reboot.reason) :
    Warranted s (h ++ ⟨.now, now⟩ :: (emission ++ persistence)) s.config.commands.rebootCommand
      r := by
  have hemission := emitted.begins.asks (keeps_report _ _)
  have hreboot : l₁.result.reboot = l.result.reboot := by
    rw [persisted.reboot, Ledger.result_update, warnUndelivered_eq]
    rfl
  rw [reboots, Bool.and_eq_true, Bool.and_eq_true, hreboot] at due
  obtain ⟨⟨hrecommended, hconfigured⟩, hsettled⟩ := due
  obtain ⟨hreached, hpolicy, happlied, houtcome, hsaid⟩ := advised.needed hrecommended
  have happlied_eq : r.applied = l.result.applied := by
    have happlied := congrArg RunResult.applied hdeeds
    exact happlied
  refine ⟨hconfigured, rfl, ⟨hpolicy, ?_, ?_, ?_⟩, ?_, ?_⟩
  · rwa [happlied_eq]
  · rwa [outcome_congr hdeeds]
  · intro hneeded
    obtain ⟨answer, why, hduring, hwhy, hreason'⟩ := hsaid hneeded
    refine ⟨answer, why, ?_, hwhy, hreason.trans hreason'⟩
    rw [during_closing hemission (by simp) (by simp), hduring,
      persisted.during_eq_nil (by simp) (by simp), happlied_eq, List.append_nil]
  · obtain ⟨answers, hlength, hasked⟩ :=
      (Emission.leads_report.mp emitted).exists_deliveries houtcome
    refine ⟨(announced l now).result, answers, hdeeds.symm, hlength, ?_⟩
    rw [early.during_report_append now hemission (persisted.during_eq_nil (by simp) (by simp))]
    exact hasked
  · have hsettles : settles reached
        ((announced l now).update (warnUndelivered summary.failed)).result = true := by
      rw [settles, hreached, ← isUnsettled_congr persisted.deeds, hsettled]
      rfl
    rw [during_closing hemission (by simp) (by simp), early.during_eq_nil (by simp),
      List.nil_append]
    exact persisted.during_persist hsettles

/-- Had the command not failed, a run would end with a warning less. -/
theorem unrebooted_finishAt {triggered failed release : History} {reason : String}
    (huntriggered : l.result.reboot.triggered = false) (time : Instant) :
    Unrebooted reason
      (finishAt (((l.note triggered).update fun r =>
        { r with reboot := { r.reboot with triggered := true } }).note release) time)
      (finishAt (((l.note failed).warn .reboot .collaborator
        ("reboot command failed: " ++ reason)).note release) time) := by
  have hsame : l.result.reboot = { l.result.reboot with triggered := false } := by
    rw [← huntriggered]
  refine ⟨rfl, ?_⟩
  simp only [finishAt, Ledger.result_update, Ledger.result_note, Ledger.warn_eq, RunResult.warn]
  rw [← hsame]

/-- A run that closes deals with a reboot. -/
theorem Closing.rebooting (hc : Closing s reached locked l h₂ record) (early : Early h₁)
    (advised : Advised s h₁ reached l.result)
    (hafter : (run s).After h₁ (emit s reached locked l)) : Rebooting s (h₁ ++ h₂) record := by
  have hdeeds := hc.deeds
  obtain ⟨now, emitted, persisted, rebooted, released⟩ := hc
  rename_i emission persistence reboot release summary l₁ l₂
  have hemission := emitted.begins.asks (keeps_report _ _)
  have hreboot : l₁.result.reboot = l.result.reboot := by
    rw [persisted.reboot, Ledger.result_update, warnUndelivered_eq]
    rfl
  have hfirst : (h₁ ++ ⟨.now, now⟩ :: (emission ++ persistence)).during .reboot = [] := by
    rw [during_closing hemission (by simp) (by simp), early.during_eq_nil (by simp),
      persisted.during_eq_nil (by simp) (by simp), List.append_nil]
  have hlast : release.during .reboot = [] :=
    History.during_eq_nil fun e he => by simp [released.keeps e he]
  have hsplit : ∀ rest, h₁ ++ ⟨.now, now⟩ :: (emission ++ (persistence ++ rest)) =
      (h₁ ++ ⟨.now, now⟩ :: (emission ++ persistence)) ++ rest := by
    intro rest
    simp
  rw [hsplit]
  cases rebooted with
  | spared quiet =>
    refine .spared ?_ ?_
    · rw [List.nil_append, History.during_append, hfirst, hlast]
      rfl
    · exact (congrArg RebootAdvice.triggered hreboot).trans advised.untriggered
  | triggered due answer success =>
    refine .tried answer hfirst hlast
      (warranted_of_due early advised emitted persisted due hdeeds ?_) ?_ ?_
    · have hreason := congrArg RebootAdvice.reason hreboot
      exact hreason
    · exact ⟨fun _ => success, fun _ => rfl⟩
    · intro reason failure
      rw [success] at failure
      cases failure
  | failed due answer failure =>
    have huntriggered : l₁.result.reboot.triggered = false :=
      (congrArg RebootAdvice.triggered hreboot).trans advised.untriggered
    refine .tried answer hfirst hlast
      (warranted_of_due early advised emitted persisted due hdeeds ?_) ?_ ?_
    · have hreason := congrArg RebootAdvice.reason hreboot
      exact hreason
    · rw [failure]
      exact ⟨fun htriggered => absurd (huntriggered.symm.trans htriggered) (by simp), by simp⟩
    · rintro reason' failure'
      rw [failure] at failure'
      cases failure'
      have hclosing : Closing s reached locked l _ _ := .intro now emitted persisted
        (.triggered due { answer with value := .ok () } rfl) released
      have hl := hafter.leads_iff.mpr hclosing.leads
      rw [hsplit] at hl
      exact ⟨_, hl, rfl, unrebooted_finishAt huntriggered now.value⟩

/-! ### A check that fails -/

theorem map_retell_of_quiet (told : RunResult) (hquiet : ∀ e ∈ h, e.request.phase ≠ .report) :
    h.map (Event.retell told) = h := by
  rw [List.map_congr_left (g := id) fun e he => ?_, List.map_id]
  obtain ⟨q, answer⟩ := e
  have hphase := hquiet _ he
  cases q with
  | emit i r report limit => exact absurd rfl hphase
  | _ => rfl

/-- A warning more makes no difference to how a run closes, but to what the emitters are told. -/
theorem Closing.lighten {warning : FailureRecord} {record' : Record}
    (hc : Closing s reached locked l' h record') (hh : Heavier warning l l') :
    ∃ told record, Closing s reached locked l (h.map (Event.retell told)) record ∧
      Warned warning record record' := by
  obtain ⟨now, emitted, persisted, rebooted, released⟩ := hc
  rename_i emission persistence reboot release summary l₁' l₂'
  have hannounced : Heavier warning (announced l now) (announced l' now) :=
    ((hh.note _ _).update _ fun _ _ => rfl).visit _
  have houtcome := hannounced.congr RunResult.outcome fun _ _ => rfl
  have hwarned : Heavier warning ((announced l now).update (warnUndelivered summary.failed))
      ((announced l' now).update (warnUndelivered summary.failed)) := by
    rw [funext (warnUndelivered_eq summary.failed)]
    exact hannounced.append _
  obtain ⟨l₁, hpersisted, hheavier₁⟩ := persisted.lighten hwarned
  obtain ⟨l₂, hrebooted, hheavier₂⟩ := rebooted.lighten hheavier₁
  have hreported := Emission.leads_report.mpr
    ((Emission.leads_report.mp emitted).retell houtcome.symm)
  have hquiet : ∀ e ∈ persistence ++ (reboot ++ release), e.request.phase ≠ .report := by
    refine List.forall_mem_append.mpr ⟨fun e he => ?_, fun e he => ?_⟩
    · rcases persisted.keeps e he with heq | heq <;> simp [heq]
    · rcases late_of_closing rebooted released e he with heq | heq <;> simp [heq]
  refine ⟨(announced l now).result, finishAt (l₂.note release) now.value, ?_,
    (hheavier₂.note release release).finishAt now.value⟩
  rw [List.map_cons, List.map_append, map_retell_of_quiet _ hquiet]
  exact .intro now hreported hpersisted hrebooted released

theorem Stands.reboot (hs : Stands s h p l) : l.result.reboot = RebootAdvice.none := by
  induction hs with
  | locked started answer locked => rfl
  | on before step ih => exact step.reboot.trans ih

theorem Stands.during_advice (hs : Stands s h p l) : h.during .advice = [] := by
  induction hs with
  | locked started answer locked => rfl
  | on before step ih =>
    rw [History.during_append_of_ne .advice _ step.keeps step.ne_advice, ih]

/-- The advice consists of one request at most. -/
theorem Exit.eq_singleton {e : Event} (exit : Exit s .advice l (before ++ e :: after) l' reached) :
    before = [] ∧ after = [] := by
  have hbegins : (Reboot.advise s.config.commands.reboot l.result.applied).Begins
      (before ++ e :: after) := by
    cases exit with
    | interrupted watch broken =>
      cases watch
      exact broken.begins
    | unadvised passed | advised passed => exact passed.2.1.begins
  have hlength := Reboot.length_le_of_begins hbegins
  rw [List.length_append, List.length_cons] at hlength
  exact ⟨List.length_eq_zero_iff.mp (by omega), List.length_eq_zero_iff.mp (by omega)⟩

/-- A host that is asked about a reboot is asked last, by a run that has got as far as that. -/
theorem standing_of_rebootReason {applied : List Candidate}
    {answer : Answer (Except String (Option String))}
    (hl : (run s).Leads (before ++ ⟨.rebootReason applied, answer⟩ :: after) record) :
    ∃ l₁ l₂ reached, Stands s before .advice l₁ ∧
      Exit s .advice l₁ [⟨.rebootReason applied, answer⟩] l₂ reached ∧ reached ≠ .skipped ∧
        Closing s reached true l₂ after record := by
  obtain ⟨h₁, h₂, h₃, p, l₁, l₂, reached, heq, hs, exit, hdue, closing⟩ :=
    staged_of_watched hl (List.mem_append_right before List.mem_cons_self) rfl
  rcases History.append_cons_eq_append heq with ⟨more, rfl, -⟩ | ⟨between, rfl, hlater⟩
  · have hquiet := hs.during_advice
    rw [History.during, List.filter_eq_nil_iff] at hquiet
    have hphase := hquiet ⟨.rebootReason applied, answer⟩ (by simp)
    simp [Request.phase] at hphase
  rcases History.append_cons_eq_append hlater.symm with ⟨more, rfl, rfl⟩ | ⟨between', rfl, rfl⟩
  · have hphase := exit.keeps ⟨.rebootReason applied, answer⟩ (by simp)
    cases p with
    | advice =>
      obtain ⟨rfl, rfl⟩ := exit.eq_singleton
      exact ⟨l₁, l₂, reached, by simpa using hs, exit, hdue, closing⟩
    | _ => cases hphase
  · have hphase := closing.keeps ⟨.rebootReason applied, answer⟩ (by simp)
    simp [Request.phase] at hphase

/-- What becomes of a check that failed, in a run that asked for it between other things. It was not
heard, since cancellation interrupted the wait for it; or no reboot is recommended, and the run went
on as it would have gone on if the host had said that none is needed, with a warning more. -/
def Unchecked (s : Settings) (before : History) (applied : List Candidate)
    (answer : Answer (Except String (Option String))) (reason : String) (after : History)
    (record : Record) : Prop :=
  (answer.waited = true ∧ answer.cancelled = true ∧
      record.result.isAbortedWith .interrupted = true) ∨
    record.result.reboot = RebootAdvice.none ∧ ∃ told record',
      (run s).Leads (before ++ ⟨.rebootReason applied, { answer with value := .ok none }⟩ ::
        after.map (Event.retell told)) record' ∧
      Warned ⟨.reboot, none, .collaborator, "reboot check failed: " ++ reason⟩ record' record

theorem Closing.reboot_eq_none (hc : Closing s reached locked l h record)
    (hnone : l.result.reboot = RebootAdvice.none) :
    record.result.reboot = RebootAdvice.none := by
  obtain ⟨now, emitted, persisted, rebooted, released⟩ := hc
  rename_i summary l₁ l₂
  have hreboot : l₁.result.reboot = RebootAdvice.none := by
    rw [persisted.reboot, Ledger.result_update, warnUndelivered_eq]
    exact hnone
  have hquiet : reboots s l₁.result = false := by
    rw [reboots, hreboot]
    rfl
  cases rebooted with
  | spared _ => exact hreboot
  | triggered due _ _ | failed due _ _ =>
    rw [hquiet] at due
    cases due

/-- What is left once a host that was asked has said that no reboot is needed. -/
theorem Stands.after_cleared (hs : Stands s before .advice l)
    (answer : Answer (Except String (Option String)))
    (passed : (Reboot.advise s.config.commands.reboot l.result.applied).Passed l.cancelled
      [⟨.rebootReason l.result.applied, answer⟩] (.ok RebootAdvice.none)) :
    (run s).After (before ++ [⟨.rebootReason l.result.applied, answer⟩])
      (emit s .queried true
        (((l.visit .evaluatingReboot).note [⟨.rebootReason l.result.applied, answer⟩]).update
          fun r => { r with reboot := RebootAdvice.none })) := by
  refine hs.after.trans ?_
  rw [stagesFrom, adviseReboot]
  exact (Ledger.after_guard (l := l.visit .evaluatingReboot) passed rfl).bind (conclude s)

/-- **A check that fails** adds a warning, and changes no other part of the result. -/
theorem unchecked_of_leads {applied : List Candidate}
    {answer : Answer (Except String (Option String))} {reason : String}
    (hl : (run s).Leads (before ++ ⟨.rebootReason applied, answer⟩ :: after) record)
    (failure : answer.value = .error reason) :
    Unchecked s before applied answer reason after record := by
  obtain ⟨l₁, l₂, reached, hs, exit, hdue, closing⟩ := standing_of_rebootReason hl
  cases exit with
  | interrupted watch broken =>
    have haborted := isAbortedWith_interrupted (h := [⟨.rebootReason applied, answer⟩]) watch
      hs.pending.abortKind
    rw [← isAbortedWith_congr closing.deeds .interrupted] at haborted
    rcases broken with ⟨-, hnil⟩ | ⟨-, -, start, e, heq, -, hwaited⟩
    · cases hnil
    · obtain ⟨rfl, rfl⟩ : [] = start ∧ ⟨.rebootReason applied, answer⟩ = e := by
        simpa using List.append_inj' ((List.nil_append _).trans heq) rfl
      rw [History.cancelled_nil, Bool.false_or, Bool.and_eq_true] at hwaited
      exact Or.inl ⟨hwaited.1, hwaited.2, haborted⟩
  | advised passed =>
    cases Reboot.leads_advise.mp passed.2.1 with
    | cleared some policy_eq value | needed some policy_eq value =>
      rw [failure] at value
      cases value
  | unadvised passed =>
    cases Reboot.leads_advise.mp passed.2.1 with
    | failed some policy_eq value =>
      rw [failure] at value
      cases value
      refine Or.inr ⟨closing.reboot_eq_none hs.reboot, ?_⟩
      -- The host may as well say that no reboot is needed.
      have hafter := hs.after_cleared { answer with value := .ok none }
        ⟨passed.1, Reboot.leads_advise.mpr (.cleared some policy_eq rfl), passed.2.2⟩
      have hheavier : Heavier
          ⟨.reboot, none, .collaborator, "reboot check failed: " ++ reason⟩
          (((l₁.visit .evaluatingReboot).note [⟨.rebootReason l₁.result.applied,
            { answer with value := .ok none }⟩]).update fun r =>
              { r with reboot := RebootAdvice.none })
          (((l₁.visit .evaluatingReboot).note [⟨.rebootReason l₁.result.applied, answer⟩]).warn
            .reboot .collaborator ("reboot check failed: " ++ reason)) := by
        refine ⟨rfl, l₁.result.warnings, [], (List.append_nil _).symm, ?_⟩
        rw [Ledger.result_update, ← hs.reboot]
        rfl
      obtain ⟨told, record', hclosing, hwarned⟩ := closing.lighten hheavier
      refine ⟨told, record', ?_, hwarned⟩
      have hl' := hafter.leads_iff.mpr hclosing.leads
      rwa [List.append_assoc] at hl'

/-! ### Every run -/

/-- A run closes after its stages, with what they have to say about a reboot; or it ends early. -/
theorem closing_or_early (hl : (run s).Leads h record) :
    (Early h ∧ record.result.reboot.triggered = false) ∨
      ∃ h₁ h₂ reached locked l, h = h₁ ++ h₂ ∧ Early h₁ ∧ Advised s h₁ reached l.result ∧
        (run s).After h₁ (emit s reached locked l) ∧ Closing s reached locked l h₂ record := by
  obtain ⟨started, answer, rest, rfl, hrest⟩ := leads_run.mp hl
  have hafter := after_run (s := s) started answer
  rcases hanswer : answer.value with (holder | ⟨path, cause⟩) | ⟨⟩
  · rw [hanswer, entered] at hrest
    obtain ⟨finished, rfl, rfl⟩ := leads_finish rfl hrest
    exact Or.inl ⟨early_begun (by simp [Request.phase]), rfl⟩
  · rw [hanswer] at hrest hafter
    exact Or.inr ⟨[_, _], rest, _, _, _, rfl, early_begun (by simp), advised_of_none _ _ rfl,
      hafter, closing_of_leads hrest⟩
  · rw [hanswer] at hrest hafter
    obtain ⟨h₁, ⟨l, reached⟩, h₂, rfl, hgate, hend⟩ := Program.leads_bind.mp hrest
    have htrip := trip_of_leads hgate
    have hadvised := advised_of_trip htrip
    by_cases hdue : reached = .skipped
    · subst hdue
      obtain ⟨h₃, r, h₄, rfl, hfinish, release, rest, rfl, rfl, rfl⟩ := Program.leads_bind.mp hend
      have hopen : l.result.finishedAt = none := congrArg (·.2.1) htrip.frame
      obtain ⟨finished, rfl, rfl⟩ := leads_finish hopen hfinish
      refine Or.inl ⟨?_, hadvised.untriggered⟩
      rw [← List.cons_append, ← List.cons_append]
      exact List.forall_mem_append.mpr ⟨early_begun htrip.keeps, by simp [Request.phase]⟩
    · rw [conclude_eq_emit l hdue] at hend
      have hstaged := hafter.trans (hgate.after_bind (conclude s))
      rw [conclude_eq_emit l hdue] at hstaged
      exact Or.inr ⟨_ :: _ :: h₁, h₂, reached, true, l, rfl, early_begun htrip.keeps, hadvised,
        hstaged, closing_of_leads hend⟩

theorem rebooting_of_leads (hl : (run s).Leads h record) : Rebooting s h record := by
  rcases closing_or_early hl with ⟨early, untriggered⟩ |
    ⟨h₁, h₂, reached, locked, l, rfl, early, advised, hafter, closing⟩
  · exact .spared (early.during_eq_nil (by simp)) untriggered
  · exact closing.rebooting early advised hafter

/-- What emitters are asked to deliver is a report of the result of the run, as it was before
closing had anything to add to it, and of a run that has not triggered a reboot. -/
theorem truth_of_leads (hl : (run s).Leads h record) {e : Event} (he : e ∈ h) {i : Nat}
    {told : RunResult} {report : Report} {limit : Span}
    (hrequest : e.request = .emit i told report limit) :
    told.Precedes record.result ∧ told.reboot.triggered = false ∧
      report = Report.render told := by
  have hphase : e.request.phase = .report := by rw [hrequest]; rfl
  rcases closing_or_early hl with ⟨early, -⟩ |
    ⟨h₁, h₂, reached, locked, l, rfl, early, advised, -, closing⟩
  · exact absurd (by simp [hphase]) (early e he)
  obtain ⟨now, emitted, persisted, rebooted, released⟩ := closing
  simp only [List.mem_append, List.mem_cons] at he
  rcases he with he | rfl | he | he | he | he
  · exact absurd (by simp [hphase]) (early e he)
  · cases hrequest
  · obtain ⟨rfl, rfl⟩ := (Emission.leads_report.mp emitted).told he hrequest
    exact ⟨precedes_closing persisted rebooted _, advised.untriggered, rfl⟩
  · rcases persisted.keeps e he with heq | heq <;> simp [heq] at hphase
  · simp [rebooted.keeps e he] at hphase
  · simp [released.keeps e he] at hphase

/-- What emitters are asked to deliver is a report of a run that has not triggered a reboot. -/
theorem told_of_leads (hl : (run s).Leads h record) {e : Event} (he : e ∈ h) {i : Nat}
    {told : RunResult} {report : Report} {limit : Span}
    (hrequest : e.request = .emit i told report limit) :
    told.reboot.triggered = false ∧ report = Report.render told :=
  (truth_of_leads hl he hrequest).2

/-- How a run deals with reboots. -/
structure Orderly (s : Settings) (h : History) (record : Record) : Prop where
  /-- It asks for one at most. -/
  once : (h.during .reboot).length ≤ 1
  /-- One that it asks for is warranted by what came before. -/
  warranted : ∀ before command answer after, h = before ++ ⟨.reboot command, answer⟩ :: after →
    Warranted s before command record.result
  /-- It is said to be triggered if and only if the command succeeded. -/
  triggered : record.result.reboot.triggered = true ↔
    ∃ command answer, (⟨.reboot command, answer⟩ : Event) ∈ h ∧ answer.value = .ok ()
  /-- A command that fails makes the difference of a warning. -/
  failed : ∀ before command answer after reason,
    h = before ++ ⟨.reboot command, answer⟩ :: after → answer.value = .error reason → ∃ record',
      (run s).Leads (before ++ ⟨.reboot command, { answer with value := .ok () }⟩ :: after)
        record' ∧ record'.result.reboot.triggered = true ∧ Unrebooted reason record' record
  /-- So does a check that fails. -/
  unchecked : ∀ before applied answer after reason,
    h = before ++ ⟨.rebootReason applied, answer⟩ :: after → answer.value = .error reason →
      Unchecked s before applied answer reason after record
  /-- No emitter is told that a reboot was triggered. -/
  told : ∀ e ∈ h, ∀ i told report limit, e.request = .emit i told report limit →
    told.reboot.triggered = false ∧ report = Report.render told

/-- **Every run deals with reboots in an orderly way.** -/
theorem leads_orderly (hl : (run s).Leads h record) : Orderly s h record := by
  have hrebooting := rebooting_of_leads hl
  refine ⟨hrebooting.once, ?_, ⟨fun htriggered => ?_, ?_⟩, ?_, ?_, ?_⟩
  · rintro before command answer after rfl
    exact hrebooting.of_split.1
  · cases hrebooting with
    | spared quiet untriggered =>
      rw [untriggered] at htriggered
      cases htriggered
    | tried answer first last warranted triggered contained =>
      exact ⟨_, answer, List.mem_append_right _ List.mem_cons_self, triggered.mp htriggered⟩
  · rintro ⟨command, answer, he, success⟩
    obtain ⟨before, after, rfl⟩ := List.append_of_mem he
    exact hrebooting.of_split.2.1.mpr success
  · rintro before command answer after reason rfl failure
    exact hrebooting.of_split.2.2 reason failure
  · rintro before applied answer after reason rfl failure
    exact unchecked_of_leads hl failure
  · intro e he i told report limit hrequest
    exact told_of_leads hl he hrequest

/-- A world in which all goes well and a reboot is needed. -/
def needy : World Unit
  | .rebootReason _, u => (atOnce (.ok (some "core packages updated: bash")), u)
  | q, u => smooth [bash] q u

/-- A run that is told that a reboot is needed is orderly, and reboots. -/
theorem leads_orderly_needy : ∃ h record, (run rebooting).Leads h record ∧
    Orderly rebooting h record ∧ record.result.reboot.triggered = true := by
  have hl := Program.leads_history needy (run rebooting) ()
  exact ⟨_, _, hl, leads_orderly hl, by decide +kernel⟩

end

end Run

end Upkeep
