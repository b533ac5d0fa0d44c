import Upkeep.Live.World
import Upkeep.Proofs.Dnf.Advisories
import Upkeep.Proofs.Json.Literals

/-!
# The upgrades that a package manager offers

A query runs three commands, one after the other: one lists what is installed, one the upgrades, one
the advisories. Without the first two there is nothing to offer. Advisories are attached as far as
they are known, so a list of advisories that cannot be read is an empty one: every upgrade is
offered then, but none is known to fix anything.

## Main definitions

* `Manager.installedReply`, `Manager.upgradesReply`, `Manager.advisoriesReply`: what the three
  commands come to.
* `known`: the advisories that could be read.
* `Answers`: a package manager answers a query.
* `Machine.Unhurried`: a machine on which commands are not cut short.

## Main results

* `Manager.upgrades_eq_ok_iff`: what is offered.
* `select_eq_nil_iff`: when none of it is selected.
* `Live.answers_query`: in a live run every query is answered by its package manager.
-/

namespace Upkeep

namespace Machine

/-- Nothing that is done on the machine is cut short. -/
structure Unhurried (m : Machine) : Prop where
  /-- There is no deadline. -/
  deadline : m.deadline = none
  /-- Nothing was abandoned. -/
  abandoned : m.abandoned = false

theorem unhurried_start (fs : Files) : (start fs).Unhurried := ⟨rfl, rfl⟩

theorem Unhurried.finish {m : Machine} (hm : m.Unhurried) (conduct : Conduct) :
    (m.finish conduct).Unhurried := by
  rw [Machine.finish]
  induction conduct.files generalizing m with
  | nil => exact hm
  | cons file files ih => exact ih ⟨hm.deadline, hm.abandoned⟩

end Machine

namespace Dnf

/-- The advisories that could be read. -/
def known : Except CommandFailure String → List (String × Advisory)
  | .ok output => parseAdvisories output
  | .error _ => []

namespace Manager

/-- What comes of listing what is installed. -/
def installedReply (d : Manager) (around : Surroundings) (m : Machine) :
    Except CommandFailure String × Machine :=
  d.ask around d.inventory installedArgs m

/-- What comes of listing the upgrades after that. -/
def upgradesReply (d : Manager) (around : Surroundings) (repositories : List String)
    (m : Machine) : Except CommandFailure String × Machine :=
  d.ask around d.program (upgradesArgs repositories) (d.installedReply around m).2

/-- What comes of listing the advisories after that. -/
def advisoriesReply (d : Manager) (around : Surroundings) (repositories : List String)
    (m : Machine) : Except CommandFailure String × Machine :=
  d.ask around d.program (advisoriesArgs repositories) (d.upgradesReply around repositories m).2

end Manager

/-- A package manager answers a query with what it offers, or too late. -/
def Answers (d : Manager) (around : Surroundings) (m : Machine) (available : List String)
    (answer : Answer (Timed (Except String (List Candidate)))) : Prop :=
  answer.value = .expired ∨ answer.value = .inTime (d.upgrades around available m).1

/-- A command is heard to its end if it ends in time. -/
theorem Manager.ask_of_conduct (d : Manager) (around : Surroundings) {m : Machine}
    {program : String} {args : List String} {conduct : Conduct}
    (passable : Command.isPassable { program := program, args := args } = true)
    (found : around.programs { program := program, args := args } = some conduct)
    (calm : conduct.cancels = false) (quick : conduct.span.nanos < d.metadataLimit.nanos)
    (hm : m.Unhurried) :
    (d.ask around program args m).1 = outputOf { program := program, args := args }
        d.metadataLimit (.over conduct.status conduct.output conduct.errors) ∧
      (d.ask around program args m).2.Unhurried := by
  have hlimit : (some d.metadataLimit).filter (fun l => l.nanos ≤ conduct.span.nanos) = none := by
    simpa [Option.filter_eq_none_iff] using quick
  have hexecute : m.execute around { program := program, args := args } (some d.metadataLimit) =
      (.over conduct.status conduct.output conduct.errors,
        Machine.finish { m with
          log := { program := program, args := args } :: m.log
          elapsed := m.elapsed + conduct.span.nanos } conduct) := by
    simp [Machine.execute, Machine.await, hm.abandoned, passable, found, calm, hlimit,
      Machine.isReached, hm.deadline]
  rw [Manager.ask, hexecute]
  refine ⟨rfl, ?_⟩
  apply Machine.Unhurried.finish
  exact ⟨hm.deadline, hm.abandoned⟩

/-- Programs that list what is installed and what can be upgraded, and fail to list advisories. -/
def listers (installed upgrades : String) : Surroundings where
  programs c :=
    if c.program = "rpm" then some { output := installed.toUTF8 }
    else if c.args.head? = some "repoquery" then some { output := upgrades.toUTF8 }
    else some { status := .code 1 }
  web _ := .unanswered ""
  mail := .unreachable ""

/-- What the three commands come to with them. -/
theorem Manager.replies_listers {m : Machine} (hm : m.Unhurried) (installed upgrades : String)
    (applyLimit : Span) :
    let d : Manager := { metadataLimit := ⟨1⟩, applyLimit := applyLimit }
    (d.installedReply (listers installed upgrades) m).1 = .ok installed ∧
      (d.upgradesReply (listers installed upgrades) ["updates"] m).1 = .ok upgrades ∧
      ∃ why, (d.advisoriesReply (listers installed upgrades) ["updates"] m).1 = .error why := by
  intro d
  have hpassable : ∀ program ∈ ["rpm", "dnf"], ∀ args ∈ [installedArgs,
      upgradesArgs ["updates"], advisoriesArgs ["updates"]],
        Command.isPassable { program := program, args := args } = true := by
    simp only [Command.isPassable, String.contains_char_eq]
    decide +kernel
  obtain ⟨hinstalled, hm₁⟩ := d.ask_of_conduct (listers installed upgrades)
    (hpassable "rpm" (by simp) installedArgs (by simp)) rfl rfl Nat.zero_lt_one hm
  obtain ⟨hupgrades, hm₂⟩ := d.ask_of_conduct (listers installed upgrades)
    (hpassable "dnf" (by simp) (upgradesArgs ["updates"]) (by simp)) rfl rfl Nat.zero_lt_one hm₁
  obtain ⟨hadvisories, -⟩ := d.ask_of_conduct (listers installed upgrades)
    (hpassable "dnf" (by simp) (advisoriesArgs ["updates"]) (by simp)) rfl rfl Nat.zero_lt_one hm₂
  exact ⟨hinstalled.trans (congrArg Except.ok (Text.decodeLossy_toUTF8 installed)),
    hupgrades.trans (congrArg Except.ok (Text.decodeLossy_toUTF8 upgrades)), _, hadvisories⟩

section

variable {d : Manager} {around : Surroundings} {repositories : List String} {m : Machine}
  {cs : List Candidate} {advisories : List (String × Advisory)} {scope : Scope}
  {available exclude : List String}

/-- Without advisories upgrades stay as they are listed. -/
theorem attachAdvisories_nil (hcs : ∀ c ∈ cs, c.advisory = none) : attachAdvisories cs [] = cs := by
  rw [attachAdvisories, List.map_congr_left (g := id) fun c hc => ?_, List.map_id]
  have hnone := hcs c hc
  obtain ⟨name, arch, oldVersion, newVersion, repo, advisory, location, checksum⟩ := c
  cases hnone
  rfl

theorem advisory_of_upgradeOfLine {line : List Char} {c : Candidate}
    (hc : upgradeOfLine line = some c) : c.advisory = none := by
  rw [upgradeOfLine] at hc
  split at hc
  · split at hc
    · cases hc
    · cases hc
      rfl
  · cases hc

/-- **What a package manager offers.** -/
theorem Manager.upgrades_eq_ok_iff (hsome : repositories ≠ []) :
    (d.upgrades around repositories m).1 = .ok cs ↔
      ∃ installed upgrades, (d.installedReply around m).1 = .ok installed ∧
        (d.upgradesReply around repositories m).1 = .ok upgrades ∧
          cs = attachAdvisories
            ((parseUpgrades upgrades).map (Manager.withInstalled (parseInstalled installed)))
            (known (d.advisoriesReply around repositories m).1) := by
  rw [Manager.upgrades, if_neg (by simpa using hsome), Manager.advisoriesReply,
    Manager.upgradesReply, Manager.installedReply]
  rcases d.ask around d.inventory installedArgs m with ⟨why | installed, m₁⟩
  · simp
  dsimp only
  rcases d.ask around d.program (upgradesArgs repositories) m₁ with ⟨why | upgrades, m₂⟩
  · simp
  dsimp only
  have hfound : ∀ c ∈ (parseUpgrades upgrades).map
      (Manager.withInstalled (parseInstalled installed)), c.advisory = none := by
    intro c hc
    obtain ⟨c₀, hc₀, rfl⟩ := List.mem_map.mp hc
    rw [parseUpgrades] at hc₀
    obtain ⟨line, -, hline⟩ := List.mem_filterMap.mp hc₀
    have hnone : c₀.advisory = none := advisory_of_upgradeOfLine hline
    exact hnone
  rcases d.ask around d.program (advisoriesArgs repositories) m₂ with ⟨why | advisories, m₃⟩
  · simp [known, attachAdvisories_nil hfound, eq_comm]
  · simp [known, eq_comm]

/-- **When nothing that is offered is selected**: none of the upgrades of a usable repository that
are not excluded is in scope. -/
theorem select_eq_nil_iff (installed : List Installed) :
    Selection.select (attachAdvisories (cs.map (Manager.withInstalled installed)) advisories) scope
        available exclude = [] ↔
      ∀ c ∈ cs, c.repo ∈ available →
        (∀ p ∈ Selection.patterns exclude, Glob.matchesText p c.name = false) →
          scope.matches? (attachAdvisory advisories c) = false := by
  rw [List.eq_nil_iff_forall_not_mem]
  simp only [Selection.mem_select, Selection.wanted_iff, attachAdvisories, List.map_map,
    List.mem_map, not_and, Bool.not_eq_true]
  constructor
  · intro hnone c hc
    exact hnone _ ⟨c, hc, rfl⟩
  · rintro hnone _ ⟨c, hc, rfl⟩
    exact hnone c hc

/-- An upgrade without an advisory is in no scope but that of all upgrades. -/
theorem matches_of_unknown {c : Candidate} (hscope : scope ≠ .all) :
    scope.matches? (attachAdvisory [] c) = false := by
  cases scope with
  | all => exact absurd rfl hscope
  | security | severity _ | advisories _ => rfl

end

end Dnf

namespace Live

/-- In a live run the package manager answers a query, on a machine that gives up on it at the
limit. -/
theorem answers_one (setup : Setup) (s : State) (available : List String) (limit : Span) :
    Dnf.Answers setup.manager setup.around
      { s.machine with
        deadline := some (s.machine.elapsed + limit.nanos)
        yields := true
        abandoned := false }
      available (answer setup (.query available limit) s).1 := by
  have hvalue : (answer setup (.query available limit) s).1.value =
      (attempt (some limit) true (setup.manager.upgrades setup.around available) s.machine).1 :=
    rfl
  rw [Dnf.Answers, hvalue, attempt, Machine.attempt]
  dsimp only [Option.map_some]
  split
  · exact Or.inl rfl
  · split
    · rename_i habandoned
      split at habandoned
      · cases habandoned
      · cases habandoned
        exact Or.inr rfl
    · exact Or.inl rfl

/-- **In a live run every query is answered by the package manager.** -/
theorem answers_query {α : Type} {setup : Setup} {p : Program α} {s : State}
    {available : List String} {limit : Span}
    {a : Answer (Timed (Except String (List Candidate)))}
    (he : ⟨.query available limit, a⟩ ∈ p.history (answer setup) s) :
    ∃ m, Dnf.Answers setup.manager setup.around m available a := by
  obtain ⟨s', heq⟩ := Program.answer_of_mem_history he
  have hanswers := answers_one setup s' available limit
  exact ⟨_, heq.symm ▸ hanswers⟩

end Live

end Upkeep
