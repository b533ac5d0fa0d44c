import Upkeep.Emission
import Upkeep.Proofs.History
import Upkeep.Proofs.Parting

/-!
# What reporting comes to

Reporting asks every emitter once and in order, whatever the emitters before it answered, and what
it answers is tallied under its name. So the history of a report is the list of the answers
(`Reporting`), and nothing else about the emitters matters for what follows.

A report that tells of another result is another report, but not to the tally: `Event.retell` puts
one in the place of the other.

## Main definitions

* `Emission.complaint`, `Emission.Tallied`: what an answer counts as.
* `Emission.deliveries`, `Emission.withdrawals`: the events of a report.
* `Emission.Reporting`: the ways in which reporting can go.
* `Event.retell`.

## Main results

* `Emission.leads_report`: reporting goes in these ways, and in all of them.
* `Emission.Tallied.parted`: each emitter has delivered or has not, in order.
* `Emission.Reporting.retell`: the same for another result with the same outcome.
-/

namespace Upkeep

/-- What an emitter answers to a report. -/
abbrev Delivery := Answer (Timed (Except EmitError Unit))

/-- The same answer to a report that tells of another result. -/
def Event.retell (told : RunResult) : Event → Event
  | ⟨.emit i _ _ limit, answer⟩ => ⟨.emit i told (Report.render told) limit, answer⟩
  | e => e

namespace Emission

/-- Why an emitter with such an answer has not delivered, if it has not. -/
def complaint (limit : Span) : Timed (Except EmitError Unit) → Option String
  | .inTime (.ok ()) => none
  | .inTime (.error e) => some e.message
  | .expired => some (EmitError.timeout limit.seconds).message

/-- Each emitter is tallied by its answer, in order. -/
inductive Tallied (limit : Span) :
    List String → List Delivery → List String → List (String × String) → Prop
  /-- There are no more. -/
  | nil : Tallied limit [] [] [] []
  /-- The first one has delivered. -/
  | delivered {name : String} {names ds : List String} {answer : Delivery}
      {answers : List Delivery} {fs : List (String × String)}
      (content : complaint limit answer.value = none) (rest : Tallied limit names answers ds fs) :
      Tallied limit (name :: names) (answer :: answers) (name :: ds) fs
  /-- The first one has not. -/
  | failed {name reason : String} {names ds : List String} {answer : Delivery}
      {answers : List Delivery} {fs : List (String × String)}
      (complaint : complaint limit answer.value = some reason)
      (rest : Tallied limit names answers ds fs) :
      Tallied limit (name :: names) (answer :: answers) ds ((name, reason) :: fs)

/-- The events of emitters from an index on that are asked to deliver a report. -/
def deliveries (limit : Span) (r : RunResult) (report : Report) :
    (index : Nat) → List Delivery → History
  | _, [] => []
  | i, answer :: answers =>
    ⟨.emit i r report limit, answer⟩ :: deliveries limit r report (i + 1) answers

/-- The events of emitters from an index on that are asked to withdraw their notices. -/
def withdrawals : (index : Nat) → List (Answer (Except EmitError Unit)) → History
  | _, [] => []
  | i, answer :: answers => ⟨.clear i, answer⟩ :: withdrawals (i + 1) answers

/-- How reporting goes. -/
inductive Reporting (settings : Settings) (r : RunResult) : History → Summary → Prop
  /-- There is nothing to report. -/
  | silent (skipped : r.outcome = .skipped) : Reporting settings r [] .empty
  /-- Every emitter is asked to deliver the report. -/
  | delivered {answers : List Delivery} {summary : Summary}
      (reported : isReported settings r = true)
      (tallied : Tallied settings.limit settings.names answers summary.delivered summary.failed) :
      Reporting settings r (deliveries settings.limit r (Report.render r) 0 answers) summary
  /-- Every emitter is asked to withdraw its notices. -/
  | withdrawn {answers : List (Answer (Except EmitError Unit))} (upToDate : r.outcome = .upToDate)
      (unwanted : settings.whenUpToDate = false) (each : answers.length = settings.names.length) :
      Reporting settings r (withdrawals 0 answers) .empty

section

variable {settings : Settings} {limit : Span} {r : RunResult} {report : Report}
  {names ds : List String} {fs : List (String × String)} {answers : List Delivery}
  {summary summary' : Summary} {i n : Nat} {h : History}

/-! ### The tally -/

theorem Tallied.length_eq (ht : Tallied limit names answers ds fs) :
    answers.length = names.length := by
  induction ht with
  | nil => rfl
  | delivered _ _ ih | failed _ _ ih => rw [List.length_cons, List.length_cons, ih]

/-- The failures are the complaints about the answers, one after the other. -/
theorem Tallied.failed_eq (ht : Tallied limit names answers ds fs) :
    fs = (names.zip answers).filterMap fun (name, answer) =>
      (complaint limit answer.value).map fun reason => (name, reason) := by
  induction ht with
  | nil => rfl
  | delivered content _ ih => simp [content, ← ih]
  | failed complaint _ ih => simp [complaint, ← ih]

/-- **Each emitter has delivered or has not**, in the order of the emitters. -/
theorem Tallied.parted (ht : Tallied limit names answers ds fs) :
    Parted names ds (fs.map Prod.fst) := by
  induction ht with
  | nil => exact .nil
  | delivered _ _ ih => exact .left ih
  | failed _ _ ih => exact .right ih

theorem Summary.add_of_content {name : String} {answer : Timed (Except EmitError Unit)}
    (hc : complaint limit answer = none) :
    summary.add name limit answer = { summary with delivered := summary.delivered ++ [name] } := by
  rcases answer with (e | ⟨⟩) | _
  · cases hc
  · rfl
  · cases hc

theorem Summary.add_of_complaint {name reason : String} {answer : Timed (Except EmitError Unit)}
    (hc : complaint limit answer = some reason) :
    summary.add name limit answer =
      { summary with failed := summary.failed ++ [(name, reason)] } := by
  rcases answer with (e | ⟨⟩) | _
  · cases hc
    rfl
  · cases hc
  · cases hc
    rfl

/-! ### The requests -/

/-- Delivering is asking each emitter, and tallying what it answers. -/
theorem leads_deliver : (deliver limit r report summary i names).Leads h summary' ↔
    ∃ answers ds fs, h = deliveries limit r report i answers ∧
      Tallied limit names answers ds fs ∧
        summary' = ⟨summary.delivered ++ ds, summary.failed ++ fs⟩ := by
  induction names generalizing summary i h with
  | nil =>
    constructor
    · rintro ⟨rfl, rfl⟩
      exact ⟨[], [], [], rfl, .nil, by simp⟩
    · rintro ⟨_, _, _, rfl, ⟨⟩, rfl⟩
      exact ⟨rfl, by simp⟩
  | cons name names ih =>
    constructor
    · rintro ⟨answer, rest, rfl, hrest⟩
      obtain ⟨answers, ds, fs, rfl, ht, rfl⟩ := ih.mp hrest
      cases hc : complaint limit answer.value with
      | none =>
        refine ⟨answer :: answers, name :: ds, fs, rfl, .delivered hc ht, ?_⟩
        simp [Summary.add_of_content hc]
      | some reason =>
        refine ⟨answer :: answers, ds, (name, reason) :: fs, rfl, .failed hc ht, ?_⟩
        simp [Summary.add_of_complaint hc]
    · rintro ⟨_, _, _, rfl, ht, rfl⟩
      cases ht with
      | delivered hc ht =>
        refine ⟨_, _, rfl, ih.mpr ⟨_, _, _, rfl, ht, ?_⟩⟩
        simp [Summary.add_of_content hc]
      | failed hc ht =>
        refine ⟨_, _, rfl, ih.mpr ⟨_, _, _, rfl, ht, ?_⟩⟩
        simp [Summary.add_of_complaint hc]

/-- Withdrawing is asking each emitter, whatever they answer. -/
theorem leads_withdraw : (withdraw i n).Leads h summary ↔
    ∃ answers, answers.length = n ∧ h = withdrawals i answers ∧ summary = .empty := by
  induction n generalizing i h with
  | zero =>
    constructor
    · rintro ⟨rfl, rfl⟩
      exact ⟨[], rfl, rfl, rfl⟩
    · rintro ⟨answers, hlength, rfl, rfl⟩
      obtain rfl := List.length_eq_zero_iff.mp hlength
      exact ⟨rfl, rfl⟩
  | succ n ih =>
    constructor
    · rintro ⟨answer, rest, rfl, hrest⟩
      obtain ⟨answers, rfl, rfl, rfl⟩ := ih.mp hrest
      exact ⟨answer :: answers, rfl, rfl, rfl⟩
    · rintro ⟨answers, hlength, rfl, rfl⟩
      obtain ⟨answer, answers, rfl⟩ := List.exists_cons_of_length_eq_add_one hlength
      exact ⟨answer, _, rfl, ih.mpr ⟨answers, by simpa using hlength, rfl, rfl⟩⟩

/-- A result that is not reported is one of a run that was skipped, or that found nothing. -/
theorem of_not_isReported (hr : isReported settings r = false) (hs : r.outcome ≠ .skipped) :
    r.outcome = .upToDate ∧ settings.whenUpToDate = false := by
  unfold isReported at hr
  split at hr
  · rename_i hskipped
    exact absurd hskipped hs
  · rename_i hupToDate
    exact ⟨hupToDate, hr⟩
  · cases hr

theorem not_skipped_of_isReported (hr : isReported settings r = true) : r.outcome ≠ .skipped := by
  intro hskipped
  rw [isReported, hskipped] at hr
  cases hr

theorem Reporting.leads (hr : Reporting settings r h summary) :
    (Emission.report settings r).Leads h summary := by
  cases hr with
  | silent skipped =>
    rw [Emission.report, if_pos (by simpa using skipped)]
    exact ⟨rfl, rfl⟩
  | delivered reported tallied =>
    rw [Emission.report, if_neg (by simpa using not_skipped_of_isReported reported),
      if_pos reported]
    exact leads_deliver.mpr ⟨_, _, _, rfl, tallied, by simp [Summary.empty]⟩
  | withdrawn upToDate unwanted each =>
    rw [Emission.report, if_neg (by simp [upToDate]),
      if_neg (by simp [isReported, upToDate, unwanted])]
    exact leads_withdraw.mpr ⟨_, each, rfl, rfl⟩

/-- **How reporting can go.** -/
theorem leads_report :
    (Emission.report settings r).Leads h summary ↔ Reporting settings r h summary := by
  refine ⟨fun hl => ?_, Reporting.leads⟩
  rw [Emission.report] at hl
  split at hl
  · rename_i hskipped
    obtain ⟨rfl, rfl⟩ := hl
    exact .silent (by simpa using hskipped)
  · rename_i hskipped
    split at hl
    · rename_i hreported
      obtain ⟨answers, ds, fs, rfl, ht, rfl⟩ := leads_deliver.mp hl
      exact .delivered hreported (by simpa [Summary.empty] using ht)
    · rename_i hunreported
      obtain ⟨answers, hlength, rfl, rfl⟩ := leads_withdraw.mp hl
      obtain ⟨hupToDate, hunwanted⟩ :=
        of_not_isReported (by simpa using hunreported) (by simpa using hskipped)
      exact .withdrawn hupToDate hunwanted hlength

/-- Each emitter from an index on is asked once and in order. -/
theorem map_request_deliveries (answers : List Delivery) :
    (deliveries limit r report i answers).map Event.request =
      (List.range' i answers.length).map fun j => .emit j r report limit := by
  induction answers generalizing i with
  | nil => rfl
  | cons answer answers ih =>
    rw [deliveries, List.map_cons, ih, List.length_cons, List.range'_succ, List.map_cons]

/-- Each emitter from an index on is asked once and in order to withdraw its notices. -/
theorem map_request_withdrawals (answers : List (Answer (Except EmitError Unit))) :
    (withdrawals i answers).map Event.request =
      (List.range' i answers.length).map fun j => .clear j := by
  induction answers generalizing i with
  | nil => rfl
  | cons answer answers ih =>
    rw [withdrawals, List.map_cons, ih, List.length_cons, List.range'_succ, List.map_cons]

/-- Every emitter is asked to deliver a report of upgrades. -/
theorem Reporting.exists_deliveries (hr : Reporting settings r h summary)
    (done : r.outcome = .completed ∨ r.outcome = .partialFailure) :
    ∃ answers : List Delivery, answers.length = settings.names.length ∧
      h = deliveries settings.limit r (Report.render r) 0 answers := by
  cases hr with
  | silent skipped => simp [skipped] at done
  | withdrawn upToDate unwanted each => simp [upToDate] at done
  | delivered reported tallied => exact ⟨_, tallied.length_eq, rfl⟩

/-- What an emitter is asked to deliver is the report of the result. -/
theorem Reporting.told {e : Event} {told : RunResult} (hr : Reporting settings r h summary)
    (he : e ∈ h) (hrequest : e.request = .emit i told report limit) :
    told = r ∧ report = Report.render r := by
  have hmem := List.mem_map_of_mem (f := Event.request) he
  rw [hrequest] at hmem
  cases hr with
  | silent skipped => cases he
  | delivered reported tallied =>
    rw [map_request_deliveries] at hmem
    obtain ⟨j, -, heq⟩ := List.mem_map.mp hmem
    cases heq
    exact ⟨rfl, rfl⟩
  | withdrawn upToDate unwanted each =>
    rw [map_request_withdrawals] at hmem
    obtain ⟨j, -, heq⟩ := List.mem_map.mp hmem
    cases heq

/-- Every emitter is asked to deliver, each once and in order. -/
theorem requests_of_leads_deliver
    (hl : (deliver limit r report summary i names).Leads h summary') :
    h.map Event.request = (List.range' i names.length).map fun j => .emit j r report limit := by
  obtain ⟨answers, ds, fs, rfl, ht, -⟩ := leads_deliver.mp hl
  rw [map_request_deliveries, ht.length_eq]

/-! ### Another result -/

theorem map_retell_deliveries (told : RunResult) (answers : List Delivery) :
    (deliveries limit r report i answers).map (Event.retell told) =
      deliveries limit told (Report.render told) i answers := by
  induction answers generalizing i with
  | nil => rfl
  | cons answer answers ih => rw [deliveries, List.map_cons, ih, Event.retell, deliveries]

theorem map_retell_withdrawals (told : RunResult)
    (answers : List (Answer (Except EmitError Unit))) :
    (withdrawals i answers).map (Event.retell told) = withdrawals i answers := by
  induction answers generalizing i with
  | nil => rfl
  | cons answer answers ih =>
    rw [withdrawals, List.map_cons, ih]
    rfl

/-- **Another result with the same outcome is reported in the same way.** -/
theorem Reporting.retell {told : RunResult} (hr : Reporting settings r h summary)
    (houtcome : told.outcome = r.outcome) :
    Reporting settings told (h.map (Event.retell told)) summary := by
  cases hr with
  | silent skipped => exact .silent (houtcome.trans skipped)
  | delivered reported tallied =>
    rw [map_retell_deliveries]
    exact .delivered (by rwa [isReported, houtcome]) tallied
  | withdrawn upToDate unwanted each =>
    rw [map_retell_withdrawals]
    exact .withdrawn (houtcome.trans upToDate) unwanted each

end

end Emission

end Upkeep
