import Upkeep.Proofs.Dnf.Upgrades
import Upkeep.Proofs.Json.Literals
import Upkeep.Proofs.Run.Containment
import Upkeep.Proofs.Run.Notice

/-!
# When a run finds nothing to do

A run counts as up to date when its query selects nothing. What the query selects depends on what
the package manager offers, and in a scope that is not that of all upgrades it depends on the
advisories. Advisories that cannot be listed do not make the query fail: nothing is known to be in
scope then, whatever is offered. So in such a scope "up to date" says that no upgrade is known to be
in scope, and not that none is.

## Main definitions

* `Selects`: what a query selects.
* `Sought`: what a run has found when it comes to a spot.
* `NoneKnown`: as far as dnf can tell nothing is in scope.
* `unlisting`: programs that list an upgrade and no advisories.

## Main results

* `upToDate_iff`: a run is up to date if its query selects nothing.
* `leads_upToDate`: what that means when dnf answers the query.
* `not_listed_of_upToDate`: a run may be up to date although advisories could not be listed.
-/

namespace Upkeep

/-- The repositories that a request queries. -/
def Request.queried : Request → List String
  | .query available _ => available
  | _ => []

namespace Run

/-- A query for usable repositories has an answer, and from that answer a run selects upgrades. -/
def Selects (s : Settings) (available : List String)
    (answer : Answer (Timed (Except String (List Candidate)))) (cs : List Candidate) : Prop :=
  ∃ offered, answer.value = .inTime (.ok offered) ∧
    Selection.select offered s.config.scope available s.config.base.excludePkgs = cs

/-- A run is past a query for some usable repositories, which has selected something. -/
structure Found (s : Settings) (p : Spot) (available : List String)
    (answer : Answer (Timed (Except String (List Candidate)))) : Prop where
  /-- The run is past the query. -/
  late : p.isLate = true
  /-- There are usable repositories. -/
  usable : available ≠ []
  /-- The query has selected something. -/
  selects : ∃ cs, cs ≠ [] ∧ Selects s available answer cs

/-- What a run has found when it comes to a spot. -/
structure Sought (s : Settings) (h : History) (p : Spot) : Prop where
  /-- Only usable repositories are queried, and there are some. -/
  usable : ∀ available, p = .query available → available ≠ []
  /-- The run is past every query that it has made, and has found something. -/
  found : ∀ (available : List String) (limit : Span)
    (answer : Answer (Timed (Except String (List Candidate)))),
    ⟨.query available limit, answer⟩ ∈ h → Found s p available answer

/-- As far as dnf can tell nothing is in scope: what is installed and what can be upgraded could be
listed, and of the upgrades from usable repositories that are not excluded none is in scope, by the
advisories that could be listed. -/
def NoneKnown (s : Settings) (d : Dnf.Manager) (around : Surroundings) (available : List String)
    (m : Machine) : Prop :=
  ∃ installed upgrades, (d.installedReply around m).1 = .ok installed ∧
    (d.upgradesReply around available m).1 = .ok upgrades ∧
      ∀ c ∈ Dnf.parseUpgrades upgrades, c.repo ∈ available →
        (∀ p ∈ Selection.patterns s.config.base.excludePkgs, Glob.matchesText p c.name = false) →
          s.config.scope.matches? (Dnf.attachAdvisory
            (Dnf.known (d.advisoriesReply around available m).1) c) = false

section

variable {s : Settings} {p p' : Spot} {l l' : Ledger} {h h₀ h₁ h₂ h₃ : History}
  {reached : Reached} {record : Record} {available : List String} {limit : Span}
  {answer : Answer (Timed (Except String (List Candidate)))} {cs cs' : List Candidate}
  {d : Dnf.Manager} {around : Surroundings} {m : Machine}

theorem Selects.unique (hs : Selects s available answer cs) (hs' : Selects s available answer cs') :
    cs = cs' := by
  obtain ⟨offered, hvalue, rfl⟩ := hs
  obtain ⟨offered', hvalue', rfl⟩ := hs'
  rw [hvalue] at hvalue'
  cases hvalue'
  rfl

/-- A query selects what it comes to. -/
theorem selects_of_leads (hl : (Upgrades.list s.config.scope s.config.base.excludePkgs available
    s.metadataLimit).Leads h (.ok cs)) :
    ∃ answer, h = [⟨.query available s.metadataLimit, answer⟩] ∧ Selects s available answer cs := by
  obtain ⟨answer, offered, rfl, hanswer, rfl⟩ := Upgrades.leads_list hl
  exact ⟨answer, rfl, offered, hanswer, rfl⟩

/-- Past its query a run does not come back to it. -/
theorem Step.isLate (step : Step s p l h p' l') (hlate : p.isLate = true) : p'.isLate = true := by
  cases step with
  | downloaded _ _ | applied _ | refused _ _ _ => rfl
  | _ => cases hlate

theorem Step.sought (step : Step s p l h p' l') (hs : Sought s h₀ p) : Sought s (h₀ ++ h) p' := by
  have hfound : p.phase ≠ .query → ∀ (available : List String) (limit : Span)
      (answer : Answer (Timed (Except String (List Candidate)))),
      ⟨.query available limit, answer⟩ ∈ h₀ ++ h → Found s p' available answer := by
    intro hother available limit answer he
    rcases List.mem_append.mp he with he | he
    · obtain ⟨hlate, husable, hselects⟩ := hs.found available limit answer he
      exact ⟨step.isLate hlate, husable, hselects⟩
    · exact absurd (step.keeps _ he).symm hother
  cases step with
  | refreshed passed =>
    refine ⟨fun available heq => ?_, hfound (by simp)⟩
    cases heq
    exact Metadata.available_ne_nil passed.2.1
  | offered passed some wanted =>
    refine ⟨fun available heq => (by cases heq), fun available limit answer he => ?_⟩
    obtain ⟨answer', rfl, hselects⟩ := selects_of_leads passed.2.1
    rcases List.mem_append.mp he with he | he
    · cases (hs.found available limit answer he).late
    · cases List.mem_singleton.mp he
      exact ⟨rfl, hs.usable _ rfl, _, some, hselects⟩
  | _ => exact ⟨fun available heq => (by cases heq), hfound (by simp)⟩

theorem Stands.sought (hs : Stands s h p l) : Sought s h p := by
  induction hs with
  | locked started answer locked =>
    refine ⟨fun available heq => (by cases heq), fun available limit answer he => ?_⟩
    simp at he
  | on before step ih => exact step.sought ih

/-- Past its query a run does not turn out to be up to date. -/
theorem Exit.outcome_of_isLate (exit : Exit s p l h l' reached) (hlate : p.isLate = true)
    (hpending : Pending h₀ p l.result) : l'.result.outcome ≠ .upToDate := by
  have hopen : l.result.outcome ≠ .upToDate := by
    rcases hpending.outcome with heq | heq <;> simp [heq]
  cases exit with
  | interrupted watch broken => simp [RunResult.abort]
  | downloadOnly passed mode =>
    simp only [Ledger.result_visit, Ledger.result_update, doneOutcome]
    split <;> simp
  | stateUnknown passed unknown => simp [RunResult.abort]
  | rejected passed known whole => simp [RunResult.abort]
  | unadvised passed | advised passed => exact hopen
  | _ => cases hlate

/-- The query that ends the stages is the one at hand. -/
theorem Exit.eq_query (exit : Exit s p l h l' reached)
    (he : ⟨.query available limit, answer⟩ ∈ h) : p = .query available := by
  have hlist : ∀ available', (Upgrades.list s.config.scope s.config.base.excludePkgs available'
      s.metadataLimit).Begins h → Spot.query available' = .query available := by
    intro available' hb
    have hasks : (Upgrades.list s.config.scope s.config.base.excludePkgs available'
        s.metadataLimit).Asks fun q => q = .query available' s.metadataLimit :=
      ⟨rfl, fun _ => trivial⟩
    have hrequest := hb.asks hasks _ he
    cases hrequest
    rfl
  have hphase := exit.keeps _ he
  cases exit with
  | interrupted watch broken =>
    cases p with
    | query available' =>
      cases watch
      exact hlist _ broken.begins
    | _ => cases hphase
  | unanswered passed | upToDate passed | reportOnly passed _ _ => exact hlist _ passed.2.1.begins
  | _ => cases hphase

/-- The stages end up to date if the query selects nothing, unless they are interrupted. -/
theorem Exit.upToDate_iff (exit : Exit s p l h l' reached) (hsought : Sought s h₀ p)
    (hpending : Pending h₀ p l.result) (he : ⟨.query available limit, answer⟩ ∈ h₀ ++ h) :
    l'.result.outcome = .upToDate ↔ l'.result.isAbortedWith .interrupted = false ∧
      Selects s available answer [] := by
  rcases List.mem_append.mp he with he | he
  · obtain ⟨hlate, -, cs, hcs, hselects⟩ := hsought.found available limit answer he
    exact ⟨fun hupToDate => absurd hupToDate (exit.outcome_of_isLate hlate hpending),
      fun hnone => absurd (hselects.unique hnone.2) hcs⟩
  · have hphase := exit.keeps _ he
    cases exit with
    | interrupted watch broken =>
      have hinterrupted := isAbortedWith_interrupted watch hpending.abortKind (h := h)
      rw [hinterrupted]
      refine ⟨fun hupToDate => ?_, fun hnone => (by cases hnone.1)⟩
      rw [RunResult.isAbortedWith, hupToDate] at hinterrupted
      cases hinterrupted
    | unanswered passed =>
      refine ⟨fun haborted => (by cases haborted), ?_⟩
      rintro ⟨-, offered, hvalue, -⟩
      obtain ⟨answer', rest, rfl, rfl, heq⟩ := passed.2.1
      cases List.mem_singleton.mp he
      rw [hvalue] at heq
      cases heq
    | upToDate passed =>
      obtain ⟨answer', rfl, hselects⟩ := selects_of_leads passed.2.1
      cases List.mem_singleton.mp he
      exact ⟨fun _ => ⟨rfl, hselects⟩, fun _ => rfl⟩
    | reportOnly passed some mode =>
      obtain ⟨answer', rfl, hselects⟩ := selects_of_leads passed.2.1
      cases List.mem_singleton.mp he
      exact ⟨fun hcompleted => (by cases hcompleted),
        fun hnone => absurd (hselects.unique hnone.2) some⟩
    | _ => cases hphase

/-- **A run is up to date if and only if its query selects nothing**, unless it is interrupted; and
only usable repositories are queried. -/
theorem upToDate_iff (hl : (run s).Leads h record) (he : ⟨.query available limit, answer⟩ ∈ h) :
    available ≠ [] ∧ (record.result.outcome = .upToDate ↔
      record.result.isAbortedWith .interrupted = false ∧ Selects s available answer []) := by
  obtain ⟨h₁, h₂, h₃, p, l₁, l₂, reached, rfl, hs, exit, -, hclosing⟩ :=
    staged_of_watched hl he rfl
  have hstages : ⟨.query available limit, answer⟩ ∈ h₁ ++ h₂ := by
    rw [← List.append_assoc] at he
    refine (List.mem_append.mp he).resolve_right fun he => ?_
    have hquiet := hclosing.quiet _ he
    cases hquiet
  have hdeeds := hclosing.deeds
  rw [outcome_congr hdeeds, isAbortedWith_congr hdeeds]
  refine ⟨?_, exit.upToDate_iff hs.sought hs.pending hstages⟩
  rcases List.mem_append.mp hstages with hstages | hstages
  · exact (hs.sought.found available limit answer hstages).usable
  · exact hs.sought.usable available (exit.eq_query hstages)

/-- A run that is up to date ends well: it tries to write the marker, and it informs its emitters,
which withdraws their notices unless they are to be told of it. -/
theorem ends_of_upToDate (hl : (run s).Leads h record)
    (hupToDate : record.result.outcome = .upToDate) :
    record.result.exitCode = 0 ∧ Attempted s h record ∧ Informed s h record := by
  obtain ⟨hattempted, -, hsettled⟩ := settling_of_leads hl
  refine ⟨?_, hattempted (hsettled.mpr (Or.inl hupToDate)), informed_of_leads hl ?_ ?_⟩
  · rw [RunResult.exitCode, hupToDate]
  · rw [hupToDate]
    decide
  · rw [RunResult.isAbortedWith, hupToDate]
    rfl

/-- Of what dnf offers a query selects nothing if nothing is known to be in scope. -/
theorem selects_nil_iff (hsome : available ≠ [])
    (hanswer : answer.value = .inTime (d.upgrades around available m).1) :
    Selects s available answer [] ↔ NoneKnown s d around available m := by
  rw [NoneKnown]
  simp only [Selects, hanswer, Timed.inTime.injEq, Dnf.Manager.upgrades_eq_ok_iff hsome]
  constructor
  · rintro ⟨offered, ⟨installed, upgrades, hinstalled, hupgrades, rfl⟩, hnone⟩
    exact ⟨installed, upgrades, hinstalled, hupgrades, (Dnf.select_eq_nil_iff _).mp hnone⟩
  · rintro ⟨installed, upgrades, hinstalled, hupgrades, hnone⟩
    exact ⟨_, ⟨installed, upgrades, hinstalled, hupgrades, rfl⟩,
      (Dnf.select_eq_nil_iff _).mpr hnone⟩

/-- A run that asks dnf is up to date if and only if no upgrade is known to be in scope, unless its
query takes too long or it is interrupted. -/
theorem upToDate_iff_noneKnown (hl : (run s).Leads h record)
    (he : ⟨.query available limit, answer⟩ ∈ h)
    (hanswers : Dnf.Answers d around m available answer) :
    record.result.outcome = .upToDate ↔ answer.value ≠ .expired ∧
      record.result.isAbortedWith .interrupted = false ∧ NoneKnown s d around available m := by
  obtain ⟨hsome, hselects⟩ := upToDate_iff hl he
  rcases hanswers with hlate | hintime
  · simp [hselects, Selects, hlate]
  · simp [hselects, selects_nil_iff hsome hintime, hintime]

/-- Without advisories nothing is known to be in scope, unless all upgrades are. -/
theorem noneKnown_of_error {installed upgrades : String} {why : Dnf.CommandFailure}
    (hscope : s.config.scope ≠ .all) (hinstalled : (d.installedReply around m).1 = .ok installed)
    (hupgrades : (d.upgradesReply around available m).1 = .ok upgrades)
    (hfailed : (d.advisoriesReply around available m).1 = .error why) :
    NoneKnown s d around available m := by
  refine ⟨installed, upgrades, hinstalled, hupgrades, ?_⟩
  rw [hfailed]
  exact fun c _ _ _ => Dnf.matches_of_unknown hscope

/-- **When a run that asks dnf is up to date**, as every live run does. Unless its query takes too
long or it is interrupted, it is up to date if and only if no upgrade is known to be in scope; and
it ends well then. So in a scope other than that of all upgrades it is up to date whenever
advisories cannot be listed, whatever upgrades there are. -/
theorem leads_upToDate (s : Settings) :
    (∀ (setup : Live.Setup) (start : Live.State) (available : List String) (limit : Span)
      (answer : Answer (Timed (Except String (List Candidate)))),
      ⟨.query available limit, answer⟩ ∈ (run s).history (Live.answer setup) start →
        ∃ m, Dnf.Answers setup.manager setup.around m available answer) ∧
    ∀ (h : History) (record : Record) (available : List String) (limit : Span)
      (answer : Answer (Timed (Except String (List Candidate)))) (d : Dnf.Manager)
      (around : Surroundings) (m : Machine), (run s).Leads h record →
      ⟨.query available limit, answer⟩ ∈ h → Dnf.Answers d around m available answer →
        (record.result.outcome = .upToDate ↔ answer.value ≠ .expired ∧
          record.result.isAbortedWith .interrupted = false ∧ NoneKnown s d around available m) ∧
        (record.result.outcome = .upToDate →
          record.result.exitCode = 0 ∧ Attempted s h record ∧ Informed s h record) ∧
        (s.config.scope ≠ .all → ∀ installed upgrades why,
          (d.installedReply around m).1 = .ok installed →
            (d.upgradesReply around available m).1 = .ok upgrades →
              (d.advisoriesReply around available m).1 = .error why →
                answer.value ≠ .expired → record.result.isAbortedWith .interrupted = false →
                  record.result.outcome = .upToDate) := by
  refine ⟨fun setup start available limit answer he => Live.answers_query he, ?_⟩
  intro h record available limit answer d around m hl he hanswers
  have hiff := upToDate_iff_noneKnown hl he hanswers
  refine ⟨hiff, ends_of_upToDate hl, ?_⟩
  intro hscope installed upgrades why hinstalled hupgrades hfailed hintime hopen
  exact hiff.mpr ⟨hintime, hopen, noneKnown_of_error hscope hinstalled hupgrades hfailed⟩

end

/-! ### Upgrades without advisories -/

/-- What is installed. -/
def bashInstalled : String := "bash\tx86_64\t0:5.2-3\n"

/-- Programs that list what is installed and what can be upgraded, and fail to list advisories. -/
def unlisting : Surroundings where
  programs c :=
    if c.program = "rpm" then some { output := bashInstalled.toUTF8 }
    else if c.args.head? = some "repoquery" then some { output := Dnf.bashUpgrade.toUTF8 }
    else some { status := .code 1 }
  web _ := .unanswered ""
  mail := .unreachable ""

/-- The package manager that runs them. -/
def dnf : Dnf.Manager where
  metadataLimit := ⟨1⟩
  applyLimit := ⟨1⟩

/-- Settings under which a run looks for security fixes. -/
def cautious : Settings :=
  { applying with config := { commands := { upgradeType := .security } } }

/-- The upgrade that they list. -/
def upgrade : Candidate := { Dnf.bash with oldVersion := some "5.2-3" }

/-- What the three commands come to. -/
theorem replies_unlisting {m : Machine} (hm : m.Unhurried) :
    (dnf.installedReply unlisting m).1 = .ok bashInstalled ∧
      (dnf.upgradesReply unlisting ["updates"] m).1 = .ok Dnf.bashUpgrade ∧
      ∃ why, (dnf.advisoriesReply unlisting ["updates"] m).1 = .error why :=
  Dnf.Manager.replies_listers hm bashInstalled Dnf.bashUpgrade ⟨1⟩

/-- What dnf offers then. -/
theorem upgrades_unlisting {m : Machine} (hm : m.Unhurried) :
    (dnf.upgrades unlisting ["updates"] m).1 = .ok [upgrade] := by
  obtain ⟨hinstalled, hupgrades, why, hfailed⟩ := replies_unlisting hm
  refine (Dnf.Manager.upgrades_eq_ok_iff (by simp)).mpr ⟨_, _, hinstalled, hupgrades, ?_⟩
  rw [hfailed, Dnf.known]
  decide +kernel

/-- A run that looks for security fixes and is offered the upgrade is up to date. -/
theorem exists_unlisting : ∃ h record limit answer, (run cautious).Leads h record ∧
    ⟨.query ["updates"] limit, answer⟩ ∈ h ∧
      answer.value =
        .inTime (dnf.upgrades unlisting ["updates"] (Machine.start Files.empty)).1 ∧
      record.result.outcome = .upToDate := by
  have hany : (((run cautious).history (smooth [upgrade]) ()).any fun e =>
      e.request.queried == ["updates"]) = true := by
    decide +kernel
  obtain ⟨⟨request, answer⟩, he, hquery⟩ := List.any_eq_true.mp hany
  obtain ⟨u, hanswer⟩ := Program.answer_of_mem_history he
  cases request with
  | query available limit =>
    obtain rfl := eq_of_beq hquery
    refine ⟨_, _, limit, answer, Program.leads_history _ _ _, he, ?_, by decide +kernel⟩
    rw [upgrades_unlisting (Machine.unhurried_start Files.empty)]
    exact congrArg Answer.value hanswer
  | _ => cases hquery

/-- It ends well. -/
theorem leads_upToDate_unlisting : ∃ h record, (run cautious).Leads h record ∧
    record.result.outcome = .upToDate ∧ record.result.exitCode = 0 ∧
      Attempted cautious h record ∧ Informed cautious h record := by
  obtain ⟨h, record, limit, answer, hl, he, hanswer, houtcome⟩ := exists_unlisting
  obtain ⟨hinstalled, hupgrades, why, hfailed⟩ :=
    replies_unlisting (Machine.unhurried_start Files.empty)
  obtain ⟨-, hends, hunlisted⟩ := (leads_upToDate cautious).2 h record ["updates"] limit answer dnf
    unlisting (Machine.start Files.empty) hl he (Or.inr hanswer)
  have hupToDate := hunlisted (by decide) _ _ why hinstalled hupgrades hfailed
    (by rw [hanswer]; simp) (by rw [RunResult.isAbortedWith, houtcome]; rfl)
  exact ⟨h, record, hl, hupToDate, hends hupToDate⟩

/-- **A run may be up to date although advisories could not be listed**, in a scope other than that
of all upgrades, and although an upgrade was listed that comes from a usable repository and is not
excluded. -/
theorem not_listed_of_upToDate : ¬∀ (s : Settings) (d : Dnf.Manager) (around : Surroundings)
    (m : Machine) (available : List String) (limit : Span)
    (answer : Answer (Timed (Except String (List Candidate)))) (h : History) (record : Record),
    s.config.scope ≠ .all → (run s).Leads h record → ⟨.query available limit, answer⟩ ∈ h →
      answer.value = .inTime (d.upgrades around available m).1 →
        (∃ upgrades, (d.upgradesReply around available m).1 = .ok upgrades ∧
          ∃ c ∈ Dnf.parseUpgrades upgrades, c.repo ∈ available ∧
            ∀ p ∈ Selection.patterns s.config.base.excludePkgs,
              Glob.matchesText p c.name = false) →
          record.result.outcome = .upToDate →
            ∃ advisories, (d.advisoriesReply around available m).1 = .ok advisories := by
  intro hall
  obtain ⟨h, record, limit, answer, hl, he, hanswer, houtcome⟩ := exists_unlisting
  obtain ⟨-, hupgrades, why, hfailed⟩ := replies_unlisting (Machine.unhurried_start Files.empty)
  obtain ⟨advisories, hlisted⟩ := hall cautious dnf unlisting (Machine.start Files.empty)
    ["updates"] limit answer h record (by decide) hl he hanswer
    ⟨_, hupgrades, Dnf.bash, by decide +kernel, by decide, by decide +kernel⟩ houtcome
  rw [hfailed] at hlisted
  cases hlisted

end Run

end Upkeep
