import Mathlib.Data.List.Forall2
import Upkeep.Proofs.Instants
import Upkeep.Proofs.Metadata

/-!
# What a refresh comes to

A refresh goes through the repositories that the filter lets through, and comes to a verdict about
each: it is left, or it drops out for a reason. A repository that is fresh is left without being
asked; a stale one is asked once, and the answer is the verdict. The three lists of a summary are
then three views of one list of verdicts, so that they cannot disagree about a repository, and their
order is that of the listing.

Repositories may be listed more than once, or under one name. The verdicts are about places in the
list and not about names, and nothing here supposes that names differ.

## Main definitions

* `Metadata.Verdict`, `Metadata.Verdicts`: what is found out about repositories.
* `Metadata.Lost`: a verdict that leaves nothing to rely on.
* `Metadata.summarize`: the verdicts as a summary.
* `Metadata.Ensured`: what a refresh comes to.

## Main results

* `Repository.isStale_iff`: when metadata is too old.
* `Metadata.verdicts_of_leads`: a summary is that of the verdicts.
* `Metadata.ensured_of_leads`: what a refresh comes to, whatever it is answered.
* `Metadata.refreshed_iff`: which repositories are refreshed.
-/

namespace Upkeep

/-- **When metadata is too old**: there is none, or it is not from the future and its age is at least
the maximum. -/
theorem Repository.isStale_iff {r : Repository} {maxAge : Span} {now : Instant} :
    r.isStale maxAge now = true ↔ r.lastRefreshed = none ∨ ∃ stamp, r.lastRefreshed = some stamp ∧
      0 ≤ now.nanosSince stamp ∧ (maxAge.nanos : Int) ≤ now.nanosSince stamp := by
  rw [isStale]
  cases r.lastRefreshed with
  | none => simp
  | some stamp =>
    by_cases hfuture : now.nanosSince stamp < 0
    · simp only [Instant.since?, hfuture, if_true, Bool.false_eq_true, reduceCtorEq, false_or,
        Option.some.injEq, exists_eq_left', false_iff]
      omega
    · simp only [Instant.since?, hfuture, if_false, decide_eq_true_eq, reduceCtorEq, false_or,
        Option.some.injEq, exists_eq_left']
      omega

/-- Outside leap seconds the age is the difference in nanoseconds. -/
theorem Repository.isStale_iff_count {r : Repository} {maxAge : Span} {now : Instant}
    (hnow : now.fraction < 1000000000) (hr : ∀ t ∈ r.lastRefreshed, t.fraction < 1000000000) :
    r.isStale maxAge now = true ↔ r.lastRefreshed = none ∨ ∃ stamp, r.lastRefreshed = some stamp ∧
      stamp.count ≤ now.count ∧ (maxAge.nanos : Int) ≤ now.count - stamp.count := by
  rw [isStale_iff]
  cases hlast : r.lastRefreshed with
  | none => simp
  | some stamp =>
    have hage := Instant.nanosSince_of_fraction hnow (hr stamp hlast)
    simp only [reduceCtorEq, false_or, Option.some.injEq, exists_eq_left', hage]
    omega

namespace Metadata

/-- A repository, and why it drops out, if it does. -/
abbrev Verdict := Repository × Option String

/-- What is found out about repositories, by refreshes of those that are stale. -/
structure Verdicts (maxAge limit : Span) (now : Instant) (rs : List Repository)
    (refreshes : History) (vs : List Verdict) : Prop where
  /-- There is a verdict about each, in order. -/
  each : vs.map Prod.fst = rs
  /-- Those that are stale are asked for fresh metadata, once each and in order, and no others. -/
  requests : refreshes.map Event.request =
    (rs.filter fun r => r.isStale maxAge now).map fun r => .refresh r.id limit
  /-- What is answered is the verdict. -/
  answers : List.Forall₂ (fun e v => ∃ answer, e = ⟨.refresh v.1.id limit, answer⟩ ∧
    v.2 = complaint limit answer.value) refreshes (vs.filter fun v => v.1.isStale maxAge now)
  /-- Those that are fresh are left. -/
  fresh : ∀ v ∈ vs, v.1.isStale maxAge now = false → v.2 = none

/-- The repository is stale, and its refresh has failed. -/
def Lost (maxAge : Span) (now : Instant) (v : Verdict) : Prop :=
  v.1.isStale maxAge now = true ∧ v.2 ≠ none

/-- The repositories that are left, those of them that have been refreshed, and those that drop
out. -/
def summarize (maxAge : Span) (now : Instant) (vs : List Verdict) : Summary where
  available := (vs.filter fun v => v.2 = none).map fun v => v.1.id
  refreshed := (vs.filter fun v => v.1.isStale maxAge now ∧ v.2 = none).map fun v => v.1.id
  failed := vs.filterMap fun v => v.2.map fun reason => (v.1.id, reason)

/-- What a refresh comes to. Without a listing nothing is refreshed, and metadata is unavailable. It
is unavailable too if the filter lets no repository through, or all of those are lost; otherwise the
verdicts are summarized. -/
def Ensured (only : List String) (maxAge limit : Span) (now : Instant) (h : History)
    (r : Except RunError Summary) : Prop :=
  ∃ listing refreshes, h = ⟨.listRepositories, listing⟩ :: refreshes ∧
    (∀ reason, listing.value = .error reason →
      refreshes = [] ∧ ∃ why, r = .error (.metadataUnavailable why)) ∧
    ∀ listed, listing.value = .ok listed →
      ∃ vs, Verdicts maxAge limit now (allowed only listed) refreshes vs ∧
        ((∃ why, r = .error (.metadataUnavailable why)) ↔
          allowed only listed = [] ∨ ∀ v ∈ vs, Lost maxAge now v) ∧
        (¬(∀ v ∈ vs, Lost maxAge now v) → r = .ok (summarize maxAge now vs))

variable {only : List String} {maxAge limit : Span} {now : Instant} {h : History}
  {rs : List Repository} {vs : List Verdict}

/-! ### Verdicts one by one -/

theorem Verdicts.nil : Verdicts maxAge limit now [] [] [] :=
  ⟨rfl, rfl, .nil, by simp⟩

/-- A repository that is fresh is left, and nothing is asked. -/
theorem Verdicts.cons_fresh {r : Repository} (hr : r.isStale maxAge now = false)
    (hv : Verdicts maxAge limit now rs h vs) :
    Verdicts maxAge limit now (r :: rs) h ((r, none) :: vs) where
  each := congrArg (r :: ·) hv.each
  requests := by
    rw [List.filter_cons_of_neg (by simp [hr])]
    exact hv.requests
  answers := by
    rw [List.filter_cons_of_neg (by simp [hr])]
    exact hv.answers
  fresh := List.forall_mem_cons.mpr ⟨fun _ => rfl, hv.fresh⟩

/-- A repository that is stale is asked, and the answer is the verdict. -/
theorem Verdicts.cons_stale {r : Repository} (hr : r.isStale maxAge now = true)
    (answer : Answer (Timed (Except String Unit))) (hv : Verdicts maxAge limit now rs h vs) :
    Verdicts maxAge limit now (r :: rs) (⟨.refresh r.id limit, answer⟩ :: h)
      ((r, complaint limit answer.value) :: vs) where
  each := congrArg (r :: ·) hv.each
  requests := by
    rw [List.filter_cons_of_pos (by simp [hr]), List.map_cons, List.map_cons, hv.requests]
  answers := by
    rw [List.filter_cons_of_pos (by simp [hr])]
    exact .cons ⟨answer, rfl, rfl⟩ hv.answers
  fresh := by
    refine List.forall_mem_cons.mpr ⟨fun hfresh => ?_, hv.fresh⟩
    rw [hr] at hfresh
    cases hfresh

/-- All are lost if nothing is left: only a repository that has been asked can drop out. -/
theorem Verdicts.lost_iff (hv : Verdicts maxAge limit now rs h vs) :
    (∀ v ∈ vs, Lost maxAge now v) ↔ (summarize maxAge now vs).available.isEmpty = true := by
  have hleft : (summarize maxAge now vs).available.isEmpty = true ↔ ∀ v ∈ vs, v.2 ≠ none := by
    simp [summarize, List.filter_eq_nil_iff]
  rw [hleft]
  refine ⟨fun hlost v hmem => (hlost v hmem).2, fun hdropped v hmem => ⟨?_, hdropped v hmem⟩⟩
  by_contra hfresh
  exact hdropped v hmem (hv.fresh v hmem (by simpa using hfresh))

/-! ### Summaries -/

/-- The lists of two summaries, one after the other. -/
def Summary.append (s s' : Summary) : Summary :=
  ⟨s.available ++ s'.available, s.refreshed ++ s'.refreshed, s.failed ++ s'.failed⟩

theorem Summary.empty_append (s : Summary) : Summary.empty.append s = s := rfl

theorem Summary.addFresh_append {s : Summary} {r : Repository} (hr : r.isStale maxAge now = false) :
    (s.addFresh r.id).append (summarize maxAge now vs) =
      s.append (summarize maxAge now ((r, none) :: vs)) := by
  simp [append, addFresh, summarize, hr]

theorem Summary.addRefresh_append {s : Summary} {r : Repository} (hr : r.isStale maxAge now = true)
    (reply : Timed (Except String Unit)) :
    (s.addRefresh r.id limit reply).append (summarize maxAge now vs) =
      s.append (summarize maxAge now ((r, complaint limit reply) :: vs)) := by
  rcases reply with (reason | ⟨⟩) | _ <;> simp [append, addRefresh, complaint, summarize, hr]

/-- **A summary is that of the verdicts.** -/
theorem verdicts_of_leads {s s' : Summary} (hl : (refreshStale maxAge limit now s rs).Leads h s') :
    ∃ vs, Verdicts maxAge limit now rs h vs ∧ s' = s.append (summarize maxAge now vs) := by
  induction rs generalizing s h with
  | nil =>
    obtain ⟨rfl, rfl⟩ := hl
    exact ⟨[], .nil, by simp [Summary.append, summarize]⟩
  | cons r rs ih =>
    rw [refreshStale] at hl
    cases hstale : r.isStale maxAge now with
    | false =>
      rw [hstale, if_neg Bool.false_ne_true] at hl
      obtain ⟨vs, hv, rfl⟩ := ih hl
      exact ⟨_, hv.cons_fresh hstale, Summary.addFresh_append hstale⟩
    | true =>
      rw [hstale, if_pos rfl] at hl
      obtain ⟨answer, rest, rfl, hrest⟩ := hl
      obtain ⟨vs, hv, rfl⟩ := ih hrest
      exact ⟨_, hv.cons_stale hstale answer, Summary.addRefresh_append hstale answer.value⟩

/-- **What a refresh comes to**, whatever it is answered. -/
theorem ensured_of_leads {r : Except RunError Summary}
    (hl : (ensureFresh only maxAge limit now).Leads h r) : Ensured only maxAge limit now h r := by
  obtain ⟨listing, rest, rfl, hrest⟩ := hl
  refine ⟨listing, rest, rfl, fun reason hlisting => ?_, fun listed hlisting => ?_⟩
  · dsimp only at hrest
    rw [hlisting] at hrest
    obtain ⟨rfl, rfl⟩ := hrest
    exact ⟨rfl, _, rfl⟩
  · dsimp only at hrest
    rw [hlisting] at hrest
    dsimp only at hrest
    split at hrest
    · rename_i hempty
      obtain ⟨rfl, rfl⟩ := hrest
      rw [List.isEmpty_iff.mp hempty]
      exact ⟨[], .nil, by simp, by simp⟩
    · rename_i hsome
      obtain ⟨h₁, s, h₂, rfl, hstale, hend⟩ := Program.leads_bind.mp hrest
      obtain ⟨vs, hv, rfl⟩ := verdicts_of_leads hstale
      rw [Summary.empty_append] at hend
      split at hend
      · rename_i hnone
        obtain ⟨rfl, rfl⟩ := hend
        rw [List.append_nil]
        exact ⟨vs, hv, iff_of_true ⟨_, rfl⟩ (Or.inr (hv.lost_iff.mpr hnone)),
          fun hleft => absurd (hv.lost_iff.mpr hnone) hleft⟩
      · rename_i hleft
        obtain ⟨rfl, rfl⟩ := hend
        rw [List.append_nil]
        refine ⟨vs, hv, iff_of_false (by simp) ?_, fun _ => rfl⟩
        rintro (hempty | hall)
        · exact hsome (List.isEmpty_iff.mpr hempty)
        · exact hleft (hv.lost_iff.mp hall)

/-- **Which repositories are refreshed**: those that are stale, among those that are listed and that
the filter lets through. -/
theorem refreshed_iff {answer : Answer (Except String (List Repository))} {rest : History}
    {listed : List Repository} {r : Except RunError Summary} {id : String}
    (hl : (ensureFresh only maxAge limit now).Leads (⟨.listRepositories, answer⟩ :: rest) r)
    (hlisted : answer.value = .ok listed) :
    (∃ e ∈ rest, e.request = .refresh id limit) ↔
      ∃ r ∈ allowed only listed, r.id = id ∧ r.isStale maxAge now = true := by
  obtain ⟨listing, refreshes, heq, -, hok⟩ := ensured_of_leads hl
  obtain ⟨hlisting, rfl⟩ := List.cons.inj heq
  cases hlisting
  obtain ⟨vs, hv, -, -⟩ := hok listed hlisted
  have hmem : (∃ e ∈ rest, e.request = .refresh id limit) ↔
      Request.refresh id limit ∈ rest.map Event.request := by simp
  rw [hmem, hv.requests]
  simp only [List.mem_map, List.mem_filter, Request.refresh.injEq, and_true]
  constructor
  · rintro ⟨r, ⟨hr, hstale⟩, hid⟩
    exact ⟨r, hr, hid, hstale⟩
  · rintro ⟨r, hr, hid, hstale⟩
    exact ⟨r, ⟨hr, hstale⟩, hid⟩

end Metadata

end Upkeep
