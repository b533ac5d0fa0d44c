import Upkeep.Proofs.History
import Upkeep.Run

/-!
# Which part of a run asks for what

Every request belongs to one part of a run, and every part of a run asks only for what belongs to
it. So a statement about one kind of request is a statement about one part of the run, and the
other parts need not be opened again.

The clock belongs to no part: several of them ask for the time.

## Main definitions

* `Phase`, `Request.phase`, `History.during`.
* `Program.Keeps`: a program that keeps to one part.

## Main results

* `keeps_ensureFresh`, `keeps_list`, `keeps_all`, `keeps_apply`, `keeps_advise`, `keeps_report`:
  the parts of a run keep to their own requests.
-/

namespace Upkeep

/-- A part of a run. -/
inductive Phase where
  /-- The time, for any part. -/
  | clock
  /-- Taking the lock and letting go of it. -/
  | lock
  /-- Checking the last-run marker. -/
  | interval
  /-- Sleeping first. -/
  | sleep
  /-- Waiting for a network. -/
  | network
  /-- Refreshing metadata. -/
  | metadata
  /-- Querying upgrades. -/
  | query
  /-- Downloading. -/
  | download
  /-- Applying. -/
  | transaction
  /-- Deciding about a reboot. -/
  | advice
  /-- Reporting. -/
  | report
  /-- Writing the last-run marker. -/
  | persist
  /-- Rebooting. -/
  | reboot
  deriving DecidableEq, Repr

/-- The part of a run that a request belongs to. -/
def Request.phase : Request → Phase
  | .now => .clock
  | .acquireLock | .releaseLock => .lock
  | .readMarker => .interval
  | .sleepRandomly _ => .sleep
  | .lookForNetwork | .networkOverdue _ | .sleepBetweenLooks => .network
  | .listRepositories | .refresh .. => .metadata
  | .query .. => .query
  | .begin .. | .await .. => .download
  | .apply .. => .transaction
  | .rebootReason _ => .advice
  | .emit .. | .clear _ => .report
  | .writeMarker _ => .persist
  | .reboot _ => .reboot

/-- The events of a history that belong to a part of the run. -/
def History.during (phase : Phase) (h : History) : History :=
  h.filter fun e => e.request.phase = phase

namespace History

variable {phase : Phase} {h : History}

theorem during_append (phase : Phase) (h h' : History) :
    during phase (h ++ h') = during phase h ++ during phase h' := by
  simp [during]

theorem during_eq_self (hh : ∀ e ∈ h, e.request.phase = phase) : during phase h = h := by
  rw [during, List.filter_eq_self]
  intro e he
  simp [hh e he]

theorem during_eq_nil (hh : ∀ e ∈ h, e.request.phase ≠ phase) : during phase h = [] := by
  rw [during, List.filter_eq_nil_iff]
  intro e he
  simp [hh e he]

/-- What another part of the run asks for does not count. -/
theorem during_append_of_ne {q : Phase} (phase : Phase) (h₀ : History)
    (hh : ∀ e ∈ h, e.request.phase = q) (hq : q ≠ phase) :
    during phase (h₀ ++ h) = during phase h₀ := by
  have hnil : during phase h = [] := during_eq_nil fun e he => hh e he ▸ hq
  rw [during_append, hnil, List.append_nil]

/-- The only event of a part of the run is where it is. -/
theorem append_cons_inj {before after h₁ h₂ : History} {e e' : Event}
    (heq : before ++ e :: after = h₁ ++ e' :: h₂) (he : e.request.phase = phase)
    (hquiet₁ : ∀ e ∈ h₁, e.request.phase ≠ phase) (hquiet₂ : ∀ e ∈ h₂, e.request.phase ≠ phase) :
    before = h₁ ∧ e = e' ∧ after = h₂ := by
  rcases append_cons_eq_append heq with ⟨more, rfl, -⟩ | ⟨between, rfl, hlater⟩
  · exact absurd he (hquiet₁ e (by simp))
  · cases between with
    | nil =>
      obtain ⟨rfl, rfl⟩ := List.cons_eq_cons.mp hlater
      exact ⟨List.append_nil _, rfl, rfl⟩
    | cons e'' between =>
      obtain ⟨rfl, rfl⟩ := List.cons_eq_cons.mp hlater
      exact absurd he (hquiet₂ e (by simp))

end History

/-! ### The parts keep to themselves -/

section

variable {phase : Phase}

/-- The program asks only for what belongs to a part of the run. -/
abbrev Program.Keeps {α : Type} (phase : Phase) (p : Program α) : Prop :=
  p.Asks fun q => q.phase = phase

theorem Program.Passed.keeps {α : Type} {p : Program α} {c : Bool} {h : History} {a : α}
    (hp : p.Passed c h a) (hk : p.Keeps phase) : ∀ e ∈ h, e.request.phase = phase :=
  hp.2.1.begins.asks hk

theorem Program.Broken.keeps {α : Type} {p : Program α} {c : Bool} {h : History}
    (hp : p.Broken c h) (hk : p.Keeps phase) : ∀ e ∈ h, e.request.phase = phase :=
  hp.begins.asks hk

theorem keeps_call (q : Request) : (Program.call q).Keeps q.phase := ⟨rfl, fun _ => trivial⟩

theorem keeps_ensureFresh (only : List String) (maxAge limit : Span) (now : Instant) :
    (Metadata.ensureFresh only maxAge limit now).Keeps .metadata := by
  have hstale : ∀ rs s, (Metadata.refreshStale maxAge limit now s rs).Keeps .metadata := by
    intro rs
    induction rs with
    | nil => exact fun s => trivial
    | cons r rs ih =>
      intro s
      rw [Metadata.refreshStale]
      split
      · exact ⟨rfl, fun answer => ih _⟩
      · exact ih _
  refine ⟨rfl, fun answer => ?_⟩
  dsimp only
  split
  · exact trivial
  · split
    · exact trivial
    · refine Program.Asks.bind (hstale _ _) fun s => ?_
      split
      · exact trivial
      · exact trivial

theorem keeps_list (scope : Scope) (exclude available : List String) (limit : Span) :
    (Upgrades.list scope exclude available limit).Keeps .query :=
  ⟨rfl, fun _ => trivial⟩

theorem keeps_all (d : DownloadConfig) (cs : List Candidate) :
    (Download.all d cs).Keeps .download := by
  have hturns : ∀ most b, (Download.turns d most b).Keeps .download := by
    intro most
    induction most with
    | zero => exact fun b => trivial
    | succ most ih =>
      intro b
      rw [Download.turns]
      split
      · refine ⟨rfl, fun answer => ?_⟩
        dsimp only
        split
        · exact ih _
        · exact ih _
      · split
        · exact ih _
        · rw [Download.Board.wait]
          split
          · exact trivial
          · exact ⟨rfl, fun answer => ih _⟩
  exact Program.Asks.bind (hturns _ _) fun b => trivial

theorem keeps_apply (artifacts : List Artifact) (limit : Span) :
    (Transaction.apply artifacts limit).Keeps .transaction := by
  rw [Transaction.apply]
  split
  · exact trivial
  · exact ⟨rfl, fun _ => trivial⟩

theorem keeps_advise (policy : RebootPolicy) (applied : List Candidate) :
    (Reboot.advise policy applied).Keeps .advice := by
  unfold Reboot.advise
  split
  · exact trivial
  · cases policy with
    | never => exact trivial
    | whenChanged => exact trivial
    | whenNeeded => exact ⟨rfl, fun _ => trivial⟩

theorem keeps_report (settings : Emission.Settings) (r : RunResult) :
    (Emission.report settings r).Keeps .report := by
  have hdeliver : ∀ names s i,
      (Emission.deliver settings.limit r (Report.render r) s i names).Keeps .report := by
    intro names
    induction names with
    | nil => exact fun s i => trivial
    | cons name names ih => exact fun s i => ⟨rfl, fun answer => ih _ _⟩
  have hwithdraw : ∀ n i, (Emission.withdraw i n).Keeps .report := by
    intro n
    induction n with
    | zero => exact fun i => trivial
    | succ n ih => exact fun i => ⟨rfl, fun _ => ih _⟩
  rw [Emission.report]
  split
  · exact trivial
  · split
    · exact hdeliver _ _ _
    · exact hwithdraw _ _

end

end Upkeep
