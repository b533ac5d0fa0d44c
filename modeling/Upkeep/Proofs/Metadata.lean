import Upkeep.Metadata
import Upkeep.Proofs.History

/-!
# Which repositories a run relies on

A repository is relied on for a reason that stands in the history: it was listed, the filter lets
it through, and its metadata was fresh at the time that was asked for just before the listing or
has been refreshed since. `History.Relies` is that reason. It names the repository itself and not
only its name, since the listing may have several repositories of one name and the reason has to
hold of one of them as a whole.

Each repository is judged by its own metadata, and by the answer to its own refresh if it needs one:
it is available, or it has failed. A refresh that is given up on is one that has failed.

## Main definitions

* `History.Relies`.
* `Metadata.Judged`: which repositories are available, and which have failed.

## Main results

* `Metadata.leads_ensureFresh_cases`: what a refresh comes to.
* `Metadata.judged_of_leads`: each repository is judged by its own answer.
* `Metadata.leads_ensureFresh`: every available repository is relied on.
-/

namespace Upkeep

/-- The history has the reason to rely on a repository: it was listed and the filter lets it
through, and its metadata was fresh when the listing was about to be asked for, or was refreshed
after it. -/
def History.Relies (h : History) (only : List String) (maxAge : Span) (id : String) : Prop :=
  ∃ (before : History) (now : Answer Instant)
    (listing : Answer (Except String (List Repository))) (after : History)
    (listed : List Repository) (r : Repository),
    h = before ++ ⟨.now, now⟩ :: ⟨.listRepositories, listing⟩ :: after ∧
      listing.value = .ok listed ∧ r ∈ listed ∧ r.id = id ∧ (only = [] ∨ id ∈ only) ∧
      (r.isStale maxAge now.value = false ∨
        ∃ (limit : Span) (answer : Answer (Timed (Except String Unit))),
          ⟨.refresh id limit, answer⟩ ∈ after ∧ answer.value = .inTime (.ok ()))

theorem History.Relies.append_left {h : History} {only : List String} {maxAge : Span} {id : String}
    (hr : h.Relies only maxAge id) (h₀ : History) : Relies (h₀ ++ h) only maxAge id := by
  obtain ⟨before, now, listing, after, listed, r, rfl, rest⟩ := hr
  exact ⟨h₀ ++ before, now, listing, after, listed, r, by simp, rest⟩

theorem History.Relies.append {h : History} {only : List String} {maxAge : Span} {id : String}
    (hr : h.Relies only maxAge id) (h' : History) : Relies (h ++ h') only maxAge id := by
  obtain ⟨before, now, listing, after, listed, r, rfl, hlisting, hr, hid, honly, hfresh⟩ := hr
  refine ⟨before, now, listing, after ++ h', listed, r, by simp, hlisting, hr, hid, honly, ?_⟩
  rcases hfresh with hfresh | ⟨limit, answer, hmem, hanswer⟩
  · exact Or.inl hfresh
  · exact Or.inr ⟨limit, answer, List.mem_append_left _ hmem, hanswer⟩

namespace Metadata

variable {only : List String} {maxAge limit : Span} {now : Instant} {h : History}

theorem mem_allowed {listed : List Repository} {r : Repository} :
    r ∈ allowed only listed ↔ r ∈ listed ∧ (only = [] ∨ r.id ∈ only) := by
  simp [allowed, List.mem_filter]

/-- A repository becomes available because it is fresh or because its refresh went well. -/
theorem leads_refreshStale {s s' : Summary} {rs : List Repository}
    (hl : (refreshStale maxAge limit now s rs).Leads h s') :
    ∀ id ∈ s'.available, id ∈ s.available ∨ ∃ r ∈ rs, r.id = id ∧
      (r.isStale maxAge now = false ∨
        ∃ answer : Answer (Timed (Except String Unit)),
          ⟨.refresh id limit, answer⟩ ∈ h ∧ answer.value = .inTime (.ok ())) := by
  induction rs generalizing s h with
  | nil =>
    obtain ⟨-, rfl⟩ := hl
    exact fun id hid => Or.inl hid
  | cons r rs ih =>
    rw [refreshStale] at hl
    intro id hid
    cases hstale : r.isStale maxAge now with
    | false =>
      rw [hstale, if_neg Bool.false_ne_true] at hl
      rcases ih hl id hid with hs | ⟨r', hr', hid', hreason⟩
      · rcases List.mem_append.mp hs with hs | hs
        · exact Or.inl hs
        · exact Or.inr ⟨r, List.mem_cons_self, (List.mem_singleton.mp hs).symm, Or.inl hstale⟩
      · exact Or.inr ⟨r', List.mem_cons_of_mem _ hr', hid', hreason⟩
    | true =>
      rw [hstale, if_pos rfl] at hl
      obtain ⟨⟨value, waited, cancelled⟩, rest, rfl, hrest⟩ := hl
      rcases ih hrest id hid with hs | ⟨r', hr', hid', hreason⟩
      · rcases value with (reason | ⟨⟩) | _
        · exact Or.inl hs
        · rcases List.mem_append.mp hs with hs | hs
          · exact Or.inl hs
          · obtain rfl := List.mem_singleton.mp hs
            exact Or.inr ⟨r, List.mem_cons_self, rfl,
              Or.inr ⟨⟨.inTime (.ok ()), waited, cancelled⟩, List.mem_cons_self, rfl⟩⟩
        · exact Or.inl hs
      · refine Or.inr ⟨r', List.mem_cons_of_mem _ hr', hid', hreason.imp_right ?_⟩
        rintro ⟨answer, hmem, hanswer⟩
        exact ⟨answer, List.mem_cons_of_mem _ hmem, hanswer⟩

/-- A refresh comes to an error about metadata, or to usable repositories: those that are left of
the repositories that were listed. -/
theorem leads_ensureFresh_cases {r : Except RunError Summary}
    (hl : (ensureFresh only maxAge limit now).Leads h r) :
    ∃ listing rest, h = ⟨.listRepositories, listing⟩ :: rest ∧
      ((∃ reason, r = .error (.metadataUnavailable reason)) ∨
        ∃ listed s, listing.value = .ok listed ∧ r = .ok s ∧ s.available ≠ [] ∧
          (refreshStale maxAge limit now .empty (allowed only listed)).Leads rest s) := by
  obtain ⟨listing, rest, rfl, hrest⟩ := hl
  refine ⟨listing, rest, rfl, ?_⟩
  dsimp only at hrest
  cases hlisting : listing.value with
  | error reason =>
    rw [hlisting] at hrest
    exact Or.inl ⟨_, hrest.2⟩
  | ok listed =>
    rw [hlisting] at hrest
    dsimp only at hrest
    split at hrest
    · exact Or.inl ⟨_, hrest.2⟩
    · obtain ⟨h₁, s, h₂, rfl, hstale, hend⟩ := Program.leads_bind.mp hrest
      split at hend
      · exact Or.inl ⟨_, hend.2⟩
      · rename_i hsome
        obtain ⟨rfl, rfl⟩ := hend
        rw [List.append_nil]
        exact Or.inr ⟨listed, s, rfl, rfl, by simpa using hsome, hstale⟩

/-- Why a repository drops out whose refresh got such an answer, if it does. -/
def complaint (limit : Span) : Timed (Except String Unit) → Option String
  | .inTime (.ok ()) => none
  | .inTime (.error reason) => some reason
  | .expired => some (timedOut limit)

/-- Each repository is judged by its own metadata, or by the answer to its own refresh: it is
available, or it has failed. -/
inductive Judged (maxAge limit : Span) (now : Instant) :
    List Repository → History → List String → List (String × String) → Prop
  /-- There are no more. -/
  | nil : Judged maxAge limit now [] [] [] []
  /-- The first one has metadata that is fresh enough. -/
  | fresh {r : Repository} {rs : List Repository} {h : History} {as : List String}
      {fs : List (String × String)} (fresh : r.isStale maxAge now = false)
      (rest : Judged maxAge limit now rs h as fs) :
      Judged maxAge limit now (r :: rs) h (r.id :: as) fs
  /-- The first one has been refreshed. -/
  | refreshed {r : Repository} {rs : List Repository} {h : History} {as : List String}
      {fs : List (String × String)} (stale : r.isStale maxAge now = true)
      {answer : Answer (Timed (Except String Unit))} (content : complaint limit answer.value = none)
      (rest : Judged maxAge limit now rs h as fs) :
      Judged maxAge limit now (r :: rs) (⟨.refresh r.id limit, answer⟩ :: h) (r.id :: as) fs
  /-- The first one has not. -/
  | failed {r : Repository} {rs : List Repository} {h : History} {as : List String}
      {fs : List (String × String)} {reason : String} (stale : r.isStale maxAge now = true)
      {answer : Answer (Timed (Except String Unit))}
      (complaint : complaint limit answer.value = some reason)
      (rest : Judged maxAge limit now rs h as fs) :
      Judged maxAge limit now (r :: rs) (⟨.refresh r.id limit, answer⟩ :: h) as
        ((r.id, reason) :: fs)

/-- **Each repository is judged by its own answer.** -/
theorem judged_of_leads {s s' : Summary} {rs : List Repository}
    (hl : (refreshStale maxAge limit now s rs).Leads h s') :
    ∃ as fs, Judged maxAge limit now rs h as fs ∧ s'.available = s.available ++ as ∧
      s'.failed = s.failed ++ fs := by
  induction rs generalizing s h with
  | nil =>
    obtain ⟨rfl, rfl⟩ := hl
    exact ⟨[], [], .nil, by simp, by simp⟩
  | cons r rs ih =>
    rw [refreshStale] at hl
    cases hstale : r.isStale maxAge now with
    | false =>
      rw [hstale, if_neg Bool.false_ne_true] at hl
      obtain ⟨as, fs, hjudged, havailable, hfailed⟩ := ih hl
      exact ⟨r.id :: as, fs, .fresh hstale hjudged, by simp [havailable, Summary.addFresh], hfailed⟩
    | true =>
      rw [hstale, if_pos rfl] at hl
      obtain ⟨⟨value, waited, cancelled⟩, rest, rfl, hrest⟩ := hl
      obtain ⟨as, fs, hjudged, havailable, hfailed⟩ := ih hrest
      rcases value with (reason | ⟨⟩) | _
      · exact ⟨as, (r.id, reason) :: fs, .failed hstale rfl hjudged, havailable,
          by simp [hfailed, Summary.addRefresh]⟩
      · exact ⟨r.id :: as, fs, .refreshed hstale rfl hjudged,
          by simp [havailable, Summary.addRefresh], hfailed⟩
      · exact ⟨as, (r.id, timedOut limit) :: fs, .failed hstale rfl hjudged, havailable,
          by simp [hfailed, Summary.addRefresh]⟩

/-- Metadata is unavailable only if no repository is left. -/
theorem leads_ensureFresh_judged {r : Except RunError Summary}
    {listing : Answer (Except String (List Repository))} {listed : List Repository}
    (hl : (ensureFresh only maxAge limit now).Leads (⟨.listRepositories, listing⟩ :: h) r)
    (hlisting : listing.value = .ok listed) :
    ∃ as fs, Judged maxAge limit now (allowed only listed) h as fs ∧
      (as = [] → ∃ reason, r = .error (.metadataUnavailable reason)) ∧
      (as ≠ [] → ∃ s, r = .ok s ∧ s.available = as ∧ s.failed = fs) := by
  obtain ⟨listing', rest, heq, hrest⟩ := hl
  cases heq
  dsimp only at hrest
  rw [hlisting] at hrest
  dsimp only at hrest
  split at hrest
  · rename_i hempty
    obtain ⟨rfl, rfl⟩ := hrest
    rw [List.isEmpty_iff.mp hempty]
    exact ⟨[], [], .nil, fun _ => ⟨_, rfl⟩, fun hne => absurd rfl hne⟩
  · obtain ⟨h₁, s, h₂, rfl, hstale, hend⟩ := Program.leads_bind.mp hrest
    obtain ⟨as, fs, hjudged, havailable, hfailed⟩ := judged_of_leads hstale
    rw [Summary.empty, List.nil_append] at havailable hfailed
    split at hend
    · rename_i hnone
      obtain ⟨rfl, rfl⟩ := hend
      rw [List.append_nil]
      have hnil : as = [] := by simpa [havailable] using hnone
      exact ⟨as, fs, hjudged, fun _ => ⟨_, rfl⟩, fun hne => absurd hnil hne⟩
    · rename_i hsome
      obtain ⟨rfl, rfl⟩ := hend
      rw [List.append_nil]
      have hne : as ≠ [] := by simpa [havailable] using hsome
      exact ⟨as, fs, hjudged, fun hnil => absurd hnil hne, fun _ => ⟨s, rfl, havailable, hfailed⟩⟩

/-- What keeps metadata from being refreshed is no interruption. -/
theorem kind_of_leads_ensureFresh {e : RunError}
    (hl : (ensureFresh only maxAge limit now).Leads h (.error e)) : e.kind ≠ .interrupted := by
  obtain ⟨listing, rest, -, ⟨reason, heq⟩ | ⟨listed, s, -, heq, -⟩⟩ := leads_ensureFresh_cases hl
  · cases heq
    simp [RunError.kind]
  · cases heq

/-- A refresh that goes well leaves usable repositories. -/
theorem available_ne_nil {s : Summary}
    (hl : (ensureFresh only maxAge limit now).Leads h (.ok s)) : s.available ≠ [] := by
  obtain ⟨listing, rest, -, ⟨reason, heq⟩ | ⟨listed, s', -, heq, hsome, -⟩⟩ :=
    leads_ensureFresh_cases hl
  · cases heq
  · cases heq
    exact hsome

/-- **Every repository that is available is relied on**, for a reason in the history of the time
that was asked for and of what followed. -/
theorem leads_ensureFresh {time : Answer Instant} {s : Summary}
    (hl : (ensureFresh only maxAge limit time.value).Leads h (.ok s)) :
    ∀ id ∈ s.available, History.Relies (⟨.now, time⟩ :: h) only maxAge id := by
  obtain ⟨listing, rest, rfl, ⟨reason, heq⟩ | ⟨listed, s', hlisting, heq, -, hstale⟩⟩ :=
    leads_ensureFresh_cases hl
  · cases heq
  · cases heq
    intro id hid
    rcases leads_refreshStale hstale id hid with hempty | ⟨r, hr, hid, hreason⟩
    · cases hempty
    · obtain ⟨hr, honly⟩ := mem_allowed.mp hr
      exact ⟨[], time, listing, rest, listed, r, rfl, hlisting, hr, hid, hid ▸ honly,
        hreason.imp_right fun ⟨answer, hanswer⟩ => ⟨limit, answer, hanswer⟩⟩

end Metadata

end Upkeep
