import Upkeep.Proofs.Files.Publication
import Upkeep.Proofs.Run.Settling
import Upkeep.Marker

/-!
# Runs one after the other

Several runs that share one marker. A world stores the marker if it carries out what a run asks
for when it writes one, and lets nothing else touch it. Then the marker holds the time of the last
run that settled and could write it, whatever the runs in between came to, and it is what it was
if there was no such run.

What is in the marker is said of the place that its path names. The runs may have different
settings and face different worlds, as long as these worlds keep their files in the same state.

## Main definitions

* `World.Stores`: a world that stores the marker.
* `journal`, `outlast`: what runs did one after the other, and what they leave.
* `Stamps`: a run settled and wrote the marker.

## Main results

* `held?_run`: what a program does to the marker is told by its history.
* `marker_settles`: a run writes the marker if it settled; the marker is that of the last one.
-/

namespace Upkeep

variable {σ : Type} {files : σ → Files} {path : String}

/-- The marker at a path is written when it is asked for, and nothing else touches it. -/
structure World.Stores (world : World σ) (files : σ → Files) (path : String) : Prop where
  /-- A new marker is written as far as that goes. -/
  written : ∀ time s,
    files (world (.writeMarker time) s).2 = (Marker.write (files s) path time).1
  /-- The answer says whether it went all the way. -/
  told : ∀ time s, (world (.writeMarker time) s).1.value = none ↔
    (Marker.write (files s) path time).2 = none
  /-- No other request touches the marker. -/
  spared : ∀ q s, q.phase ≠ .persist → (files (world q s).2).held? path = (files s).held? path

/-- The time of a marker that was written. -/
def Event.stamp? : Event → Option Instant
  | ⟨.writeMarker time, answer⟩ => if answer.value.isNone then some time else none
  | _ => none

/-- The times of the markers that were written. -/
def History.stamps (h : History) : List Instant := h.filterMap Event.stamp?

theorem History.stamps_eq (h : History) : h.stamps = (h.during .persist).stamps := by
  induction h with
  | nil => rfl
  | cons e h ih =>
    obtain ⟨q, answer⟩ := e
    rw [stamps, List.filterMap_cons, ← stamps, ih]
    cases q with
    | writeMarker time => rfl
    | _ => rfl

/-- What one request does to the marker is told by the answer. -/
theorem held?_answer {world : World σ} (hw : world.Stores files path) (q : Request) (s : σ) :
    (files (world q s).2).held? path =
      ((Event.stamp? ⟨q, (world q s).1⟩).map Marker.content).or ((files s).held? path) := by
  cases q with
  | writeMarker time =>
    have htold := hw.told time s
    rw [hw.written, Marker.write, Files.held?_publication, Event.stamp?]
    by_cases hdone : (world (.writeMarker time) s).1.value = none
    · rw [Marker.write] at htold
      rw [if_pos (htold.mp hdone), hdone]
      rfl
    · rw [Marker.write] at htold
      rw [if_neg (mt htold.mpr hdone), if_neg (by simpa using hdone)]
      rfl
  | _ => exact hw.spared _ s (by simp [Request.phase])

/-- **What a program does to the marker is told by its history.** -/
theorem held?_run {α : Type} {world : World σ} (hw : world.Stores files path) (p : Program α)
    (s : σ) : (files (p.run world s).2).held? path =
      ((p.history world s).stamps.getLast?.map Marker.content).or ((files s).held? path) := by
  induction p generalizing s with
  | done a => rfl
  | ask q next ih =>
    rw [Program.run, Program.history, ih, held?_answer hw, History.stamps, History.stamps,
      List.filterMap_cons]
    cases Event.stamp? ⟨q, (world q s).1⟩ with
    | none => rfl
    | some time =>
      rw [List.getLast?_cons]
      cases (List.filterMap Event.stamp? _).getLast? <;> rfl

namespace Run

/-! ### One run -/

variable {s : Settings} {h : History} {record : Record}

/-- The run settled, and wrote the marker with a time. -/
def Stamps (h : History) (record : Record) (time : Instant) : Prop :=
  Settled h record ∧ ∃ answer, ⟨.writeMarker time, answer⟩ ∈ h ∧ answer.value = none

/-- A run that writes the marker writes it once. -/
theorem Attempted.during_persist (ha : Attempted s h record) :
    ∃ now answer, h.during .persist = [⟨.writeMarker now, answer⟩] := by
  obtain ⟨now, answer, hfirst, -, -, hlate, -⟩ := ha
  rename_i before after told summary
  have hafter : after.during .persist = [] := History.during_eq_nil fun e he => by
    rcases hlate e he with heq | heq <;> simp [heq]
  refine ⟨now.value, answer, ?_⟩
  rw [History.during_append, hfirst, List.nil_append]
  change ⟨.writeMarker now.value, answer⟩ :: after.during .persist = _
  rw [hafter]

/-- The times of the markers that a run wrote: the one it stamps with, if any. -/
theorem stamps_of_leads (hl : (run s).Leads h record) :
    (∀ time, Stamps h record time → h.stamps = [time]) ∧
      ((∀ time, ¬Stamps h record time) → h.stamps = []) := by
  obtain ⟨hattempted, hwithheld, -⟩ := settling_of_leads hl
  by_cases hsettled : Settled h record
  · obtain ⟨now, answer, hduring⟩ := (hattempted hsettled).during_persist
    have hmem : ∀ {time answer'}, ⟨.writeMarker time, answer'⟩ ∈ h →
        (⟨.writeMarker time, answer'⟩ : Event) = ⟨.writeMarker now, answer⟩ := by
      intro time answer' hh
      have hpersist : (⟨.writeMarker time, answer'⟩ : Event) ∈ h.during .persist :=
        List.mem_filter.mpr ⟨hh, by simp [Request.phase]⟩
      rw [hduring] at hpersist
      exact List.mem_singleton.mp hpersist
    rw [History.stamps_eq, hduring]
    constructor
    · rintro time ⟨-, answer', hh, hvalue⟩
      cases hmem hh
      simp [History.stamps, Event.stamp?, hvalue]
    · intro hnone
      have hfailed : answer.value ≠ none := by
        intro hvalue
        refine hnone now ⟨hsettled, answer, ?_, hvalue⟩
        have hin : (⟨.writeMarker now, answer⟩ : Event) ∈ h.during .persist := by
          rw [hduring]
          exact List.mem_singleton.mpr rfl
        exact (List.mem_filter.mp hin).1
      simp [History.stamps, Event.stamp?, hfailed]
  · refine ⟨fun time hstamps => absurd hstamps.1 hsettled, fun _ => ?_⟩
    rw [History.stamps_eq, hwithheld hsettled]
    rfl

/-! ### One run after the other -/

/-- What runs did one after the other: their histories and their records. -/
def journal : List (Settings × World σ) → σ → List (History × Record)
  | [], _ => []
  | (s, world) :: runs, start =>
    ((run s).history world start, ((run s).run world start).1) ::
      journal runs ((run s).run world start).2

/-- What runs leave one after the other. -/
def outlast : List (Settings × World σ) → σ → σ
  | [], start => start
  | (s, world) :: runs, start => outlast runs ((run s).run world start).2

/-- The marker is that of the last run that settled and wrote it, or what it was before. -/
theorem held?_outlast {runs : List (Settings × World σ)} {start : σ}
    (stores : ∀ r ∈ runs, r.2.Stores files path) :
    (∀ earlier h record later time, journal runs start = earlier ++ (h, record) :: later →
      Stamps h record time → (∀ e ∈ later, ∀ t, ¬Stamps e.1 e.2 t) →
        (files (outlast runs start)).held? path = some (Marker.content time)) ∧
      ((∀ e ∈ journal runs start, ∀ t, ¬Stamps e.1 e.2 t) →
        (files (outlast runs start)).held? path = (files start).held? path) := by
  induction runs generalizing start with
  | nil => simp [journal, outlast]
  | cons r runs ih =>
    obtain ⟨s, world⟩ := r
    have hworld : world.Stores files path := stores (s, world) List.mem_cons_self
    have hrest : ∀ r ∈ runs, r.2.Stores files path :=
      fun r hr => stores r (List.mem_cons_of_mem _ hr)
    obtain ⟨ihlast, ihnone⟩ := @ih ((run s).run world start).2 hrest
    obtain ⟨hstamps, hnothing⟩ := stamps_of_leads (Program.leads_history world (run s) start)
    have hrun := held?_run hworld (run s) start
    constructor
    · intro earlier h record later time hjournal htime hlater
      cases earlier with
      | nil =>
        obtain ⟨heq, rfl⟩ := List.cons_eq_cons.mp hjournal
        cases heq
        rw [outlast, ihnone hlater, hrun, hstamps time htime]
        rfl
      | cons e earlier =>
        obtain ⟨-, hrest⟩ := List.cons_eq_cons.mp hjournal
        exact ihlast earlier h record later time hrest htime hlater
    · intro hnone
      have hfirst := hnone _ List.mem_cons_self
      rw [outlast, ihnone fun e he => hnone e (List.mem_cons_of_mem _ he), hrun,
        hnothing hfirst]
      rfl

/-- **A run writes the marker if and only if it settled, and the marker is that of the last one**
that did and could write it. -/
theorem marker_settles :
    (∀ (s : Settings) (h : History) (record : Record), (run s).Leads h record →
      (Settled h record → Attempted s h record) ∧
        (¬Settled h record → h.during .persist = []) ∧
        (Settled h record ↔ record.result.IsSettled)) ∧
    ∀ (σ : Type) (files : σ → Files) (path : String) (runs : List (Settings × World σ))
      (start : σ), (∀ r ∈ runs, r.2.Stores files path) →
        (∀ earlier h record later time, journal runs start = earlier ++ (h, record) :: later →
          Stamps h record time → (∀ e ∈ later, ∀ t, ¬Stamps e.1 e.2 t) →
            (files (outlast runs start)).held? path = some (Marker.content time)) ∧
          ((∀ e ∈ journal runs start, ∀ t, ¬Stamps e.1 e.2 t) →
            (files (outlast runs start)).held? path = (files start).held? path) :=
  ⟨fun _ _ _ hl => settling_of_leads hl, fun _ _ _ _ _ stores => held?_outlast stores⟩

/-- A smooth world that stores the marker. -/
def storing (path : String) (offered : List Candidate) : World Files
  | .readMarker, fs => (atOnce (Marker.read fs path), fs)
  | .writeMarker time, fs =>
    (atOnce ((Marker.write fs path time).2.map (Marker.writeFailure path)),
      (Marker.write fs path time).1)
  | q, fs => ((smooth offered q ()).1, fs)

theorem stores_storing (path : String) (offered : List Candidate) :
    (storing path offered).Stores id path where
  written := fun _ _ => rfl
  told := fun _ _ => Option.map_eq_none_iff
  spared := by
    intro q fs hphase
    cases q with
    | writeMarker time => exact absurd rfl hphase
    | _ => rfl

theorem stamps_of_any {time : Instant} (hanswered : h.answered = true)
    (hsettled : isUnsettled record.result = false)
    (hany : (h.any fun e => e.stamp? = some time) = true) : Stamps h record time := by
  obtain ⟨⟨q, answer⟩, he, hstamp⟩ := List.any_eq_true.mp hany
  refine ⟨⟨hanswered, hsettled⟩, ?_⟩
  cases q with
  | writeMarker time' =>
    rw [Event.stamp?] at hstamp
    split at hstamp
    · rename_i hvalue
      obtain rfl : time' = time := by simpa using hstamp
      exact ⟨answer, he, by simpa using hvalue⟩
    · simp at hstamp
  | _ => simp [Event.stamp?] at hstamp

/-- Of two runs in such a world the first settles and the second is not due: the marker is that of
the first. -/
theorem marker_settles_storing :
    (outlast [(applying, storing "last_run.json" [bash]),
      (applying, storing "last_run.json" [bash])] Files.empty).held? "last_run.json" =
        some (Marker.content ⟨0, 0⟩) := by
  refine (marker_settles.2 Files id "last_run.json" _ Files.empty ?_).1 [] _ _ _ ⟨0, 0⟩ rfl
    (stamps_of_any (by decide +kernel) (by decide +kernel) (by decide +kernel)) ?_
  · intro r hr
    have hstores := stores_storing "last_run.json" [bash]
    rcases List.mem_cons.mp hr with rfl | hr
    · exact hstores
    · obtain rfl := List.mem_singleton.mp hr
      exact hstores
  · intro e he t hstamps
    obtain rfl := List.mem_singleton.mp he
    have hanswered := hstamps.1.1
    revert hanswered
    decide +kernel

end Run

end Upkeep
