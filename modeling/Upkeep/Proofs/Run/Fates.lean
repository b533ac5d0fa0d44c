import Mathlib.Data.List.Nodup
import Upkeep.Proofs.Run.Consistency
import Upkeep.Proofs.Selection
import Upkeep.Report

/-!
# What a report says became of each candidate

The line of a candidate in a report ends with a mark, and the mark is found by name and architecture
in what was applied, what was downloaded, and what failed. A candidate can have namesakes, though:
two repositories may offer the same package. They are downloaded one by one, and one may be fine and
the other not. Then both lines show the better end of the two, while the counts above them are those
of the candidates.

So the marks are right if namesakes come to the same end, and only then; and that is also when the
counts and the marks agree. Nothing else has to be known of the run, since in every run each
candidate comes to one end of its own (`EndsAs`) and the lists of the result are made of these ends.

## Main definitions

* `Fate`: the end of a candidate.
* `Fated`: the lists of a result are those of the ends.
* `Unanimous`: namesakes come to the same end.
* `Run.EndsAs`: the end that a candidate came to in a run.

## Main results

* `Fated.marker_eq`: the mark is that of the best end among namesakes.
* `Fated.marker_iff`, `Fated.countsAgree_iff`: when the marks are right, and when the counts agree.
* `Run.leads_fates`: the report of every run.
-/

namespace Upkeep

/-! ### Ends -/

/-- What became of a candidate. -/
inductive Fate where
  /-- Nothing. -/
  | untouched
  /-- Its download failed. -/
  | failed
  /-- It was downloaded. -/
  | downloaded
  /-- It was downloaded and applied. -/
  | applied
  deriving DecidableEq, Repr

namespace Fate

/-- The mark of a line. -/
def mark : Fate → String
  | untouched => ""
  | failed => " (failed)"
  | downloaded => " (downloaded)"
  | applied => " (applied)"

theorem mark_inj {f g : Fate} : f.mark = g.mark ↔ f = g := by
  revert f g
  rintro (_ | _ | _ | _) (_ | _ | _ | _) <;> decide

/-- The artifact was downloaded, whether or not it was applied. -/
def fetched : Fate → Bool
  | downloaded | applied => true
  | _ => false

/-- The best of some ends. -/
def best (fates : List Fate) : Fate :=
  if .applied ∈ fates then .applied
  else if .downloaded ∈ fates then .downloaded
  else if .failed ∈ fates then .failed
  else .untouched

/-- The best of ends that are all the same. -/
theorem best_eq {fates : List Fate} {f : Fate} (hmem : f ∈ fates) (hsame : ∀ g ∈ fates, g = f) :
    best fates = f := by
  have hiff : ∀ g, g ∈ fates ↔ g = f := fun g => ⟨hsame g, fun heq => heq ▸ hmem⟩
  simp only [best, hiff]
  cases f <;> rfl

end Fate

/-! ### Candidates and their ends -/

/-- The ends of the candidates of a name and architecture. -/
def namesakes (told : List (Candidate × Fate)) (id : PackageId) : List Fate :=
  (told.filter fun x => x.1.id = id).map Prod.snd

/-- The best end that a candidate or a namesake came to. -/
def bestAmong (told : List (Candidate × Fate)) (c : Candidate) : Fate :=
  Fate.best (namesakes told c.id)

/-- Candidates of the same name and architecture come to the same end. -/
def Unanimous (told : List (Candidate × Fate)) : Prop :=
  ∀ x ∈ told, ∀ y ∈ told, x.1.id = y.1.id → x.2 = y.2

instance : DecidablePred Unanimous := fun _ => inferInstanceAs (Decidable (∀ _ ∈ _, _))

variable {told : List (Candidate × Fate)} {r : RunResult} {c : Candidate} {f : Fate}

theorem mem_namesakes {id : PackageId} :
    f ∈ namesakes told id ↔ ∃ c, (c, f) ∈ told ∧ c.id = id := by
  simp [namesakes]

/-- The best end is everyone's own just if namesakes come to the same end. -/
theorem bestAmong_iff :
    (∀ x ∈ told, bestAmong told x.1 = x.2) ↔ Unanimous told := by
  constructor
  · intro h x hx y hy hid
    rw [← h x hx, ← h y hy, bestAmong, bestAmong, hid]
  · rintro h ⟨c, f⟩ hx
    refine Fate.best_eq (mem_namesakes.mpr ⟨c, hx, rfl⟩) fun g hg => ?_
    obtain ⟨d, hd, hid⟩ := mem_namesakes.mp hg
    exact h _ hd _ hx hid

/-- Without namesakes nobody comes to another end than a namesake. -/
theorem unanimous_of_nodup (h : (told.map fun x => x.1.id).Nodup) : Unanimous told :=
  fun _ hx _ hy hid => congrArg Prod.snd (List.inj_on_of_nodup_map h hx hy hid)

/-- The lists of a result are made of the candidates that came to an end. -/
structure Fated (told : List (Candidate × Fate)) (r : RunResult) : Prop where
  /-- Every candidate came to an end. -/
  considered : told.map Prod.fst = r.considered
  /-- Some were applied. -/
  applied : r.applied = (told.filter fun x => x.2 = .applied).map Prod.fst
  /-- Some were downloaded. -/
  downloaded : r.downloaded = (told.filter fun x => x.2.fetched).map Prod.fst
  /-- Some failed. -/
  failed : (r.failedPackages.map FailureRecord.package).Perm
    ((told.filter fun x => x.2 = .failed).map fun x => some x.1.id)

namespace Fated

theorem mem_applied (h : Fated told r) : c ∈ r.applied ↔ (c, .applied) ∈ told := by
  simp [h.applied]

theorem mem_downloaded (h : Fated told r) :
    c ∈ r.downloaded ↔ ∃ f, (c, f) ∈ told ∧ f.fetched = true := by
  simp [h.downloaded]

theorem mem_failed (h : Fated told r) {id : PackageId} :
    some id ∈ r.failedPackages.map FailureRecord.package ↔ .failed ∈ namesakes told id := by
  rw [h.failed.mem_iff, mem_namesakes]
  simp

/-- **The mark is that of the best end among namesakes.** -/
theorem marker_eq (h : Fated told r) (c : Candidate) :
    Report.marker r c = (bestAmong told c).mark := by
  have happlied : r.applied.any (fun d => d.id == c.id) = true ↔
      .applied ∈ namesakes told c.id := by
    simp [h.mem_applied, mem_namesakes]
  have hdownloaded : r.downloaded.any (fun d => d.id == c.id) = true ↔
      .downloaded ∈ namesakes told c.id ∨ .applied ∈ namesakes told c.id := by
    simp only [List.any_eq_true, beq_iff_eq, h.mem_downloaded, mem_namesakes]
    constructor
    · rintro ⟨d, ⟨f, hd, hf⟩, hid⟩
      cases f with
      | untouched | failed => cases hf
      | downloaded => exact Or.inl ⟨d, hd, hid⟩
      | applied => exact Or.inr ⟨d, hd, hid⟩
    · rintro (⟨d, hd, hid⟩ | ⟨d, hd, hid⟩)
      · exact ⟨d, ⟨_, hd, rfl⟩, hid⟩
      · exact ⟨d, ⟨_, hd, rfl⟩, hid⟩
  have hfailed : r.failedPackages.any (fun f => f.package == some c.id) = true ↔
      .failed ∈ namesakes told c.id := by
    rw [← h.mem_failed]
    simp
  rw [Report.marker, bestAmong, Fate.best]
  simp only [happlied, hdownloaded, hfailed]
  split
  · rfl
  · rename_i hnot
    simp only [hnot, or_false]
    split
    · rfl
    · split <;> rfl

/-- **The marks are right** just if namesakes come to the same end. -/
theorem marker_iff (h : Fated told r) :
    (∀ x ∈ told, Report.marker r x.1 = x.2.mark) ↔ Unanimous told := by
  rw [← bestAmong_iff]
  simp only [h.marker_eq, Fate.mark_inj]

end Fated

/-! ### Counts -/

/-- The counts of a result are those of the marks; who was applied was downloaded before. -/
structure CountsAgree (r : RunResult) : Prop where
  /-- As many lines say so as candidates were applied. -/
  applied : (r.considered.countP fun c => Report.marker r c = " (applied)") = r.applied.length
  /-- As many say so as were downloaded. -/
  downloaded : (r.considered.countP fun c => Report.marker r c = " (applied)" ∨
    Report.marker r c = " (downloaded)") = r.downloaded.length
  /-- As many say so as failed. -/
  failed : (r.considered.countP fun c => Report.marker r c = " (failed)") = r.failedCount

/-- What holds of as many elements as something that it follows from is the same. -/
theorem iff_of_countP_eq {α : Type} {p q : α → Bool} {l : List α}
    (himp : ∀ x ∈ l, p x = true → q x = true) (hcount : l.countP p = l.countP q) :
    ∀ x ∈ l, p x = true ↔ q x = true := by
  induction l with
  | nil => simp
  | cons x l ih =>
    obtain ⟨hx, hl⟩ := List.forall_mem_cons.mp himp
    have hle : l.countP p ≤ l.countP q := List.countP_mono_left hl
    rw [List.countP_cons, List.countP_cons] at hcount
    by_cases hp : p x = true
    · rw [if_pos hp, if_pos (hx hp)] at hcount
      exact List.forall_mem_cons.mpr ⟨⟨hx, fun _ => hp⟩, ih hl (by omega)⟩
    · rw [if_neg hp] at hcount
      have hq : ¬q x = true := by
        intro hq
        rw [if_pos hq] at hcount
        omega
      rw [if_neg hq] at hcount
      exact List.forall_mem_cons.mpr ⟨iff_of_false hp hq, ih hl (by omega)⟩

namespace Fated

/-- As many lines have a mark as candidates have a best end of that mark. -/
theorem countP_marker (h : Fated told r) (p : Fate → Bool) {q : String → Bool}
    (hq : ∀ f : Fate, q f.mark = p f) :
    (r.considered.countP fun c => q (Report.marker r c)) =
      told.countP fun x => p (bestAmong told x.1) := by
  rw [← h.considered, List.countP_map]
  refine List.countP_congr fun x _ => ?_
  simp only [Function.comp_apply, h.marker_eq, hq]

theorem failedCount_eq (h : Fated told r) :
    r.failedCount = told.countP fun x => x.2 = .failed := by
  rw [RunResult.failedCount, ← List.length_map (f := FailureRecord.package), h.failed.length_eq,
    List.length_map, List.countP_eq_length_filter]

/-- The counts are those of the ends. -/
theorem countsAgree_iff_countP (h : Fated told r) :
    CountsAgree r ↔
      (told.countP fun x => bestAmong told x.1 = .applied) =
          told.countP (fun x => x.2 = .applied) ∧
        (told.countP fun x => (bestAmong told x.1).fetched) =
          told.countP (fun x => x.2.fetched) ∧
        (told.countP fun x => bestAmong told x.1 = .failed) =
          told.countP (fun x => x.2 = .failed) := by
  have happlied := h.countP_marker (fun f => f = .applied) (q := fun m => m = " (applied)")
    (by rintro (_ | _ | _ | _) <;> decide)
  have hdownloaded := h.countP_marker Fate.fetched
    (q := fun m => m = " (applied)" ∨ m = " (downloaded)")
    (by rintro (_ | _ | _ | _) <;> decide)
  have hfailed := h.countP_marker (fun f => f = .failed) (q := fun m => m = " (failed)")
    (by rintro (_ | _ | _ | _) <;> decide)
  have hlengthApplied : r.applied.length = told.countP fun x => x.2 = .applied := by
    rw [h.applied, List.length_map, List.countP_eq_length_filter]
  have hlengthDownloaded : r.downloaded.length = told.countP fun x => x.2.fetched := by
    rw [h.downloaded, List.length_map, List.countP_eq_length_filter]
  rw [← happlied, ← hdownloaded, ← hfailed, ← hlengthApplied, ← hlengthDownloaded,
    ← h.failedCount_eq]
  exact ⟨fun ⟨ha, hd, hf⟩ => ⟨ha, hd, hf⟩, fun ⟨ha, hd, hf⟩ => ⟨ha, hd, hf⟩⟩

/-- The best end is at least as good as one's own. -/
theorem bestAmong_of_mem {x : Candidate × Fate} (hx : x ∈ told) :
    (x.2 = .applied → bestAmong told x.1 = .applied) ∧
      (x.2.fetched = true → (bestAmong told x.1).fetched = true) ∧
      (x.2 = .failed → bestAmong told x.1 = .failed ∨ (bestAmong told x.1).fetched = true) := by
  obtain ⟨c, f⟩ := x
  have hmem : f ∈ namesakes told c.id := mem_namesakes.mpr ⟨c, hx, rfl⟩
  rw [bestAmong, Fate.best]
  refine ⟨?_, ?_, ?_⟩
  · rintro rfl
    rw [if_pos hmem]
  · intro hf
    cases f with
    | untouched | failed => cases hf
    | downloaded =>
      split
      · rfl
      · rfl
    | applied =>
      rw [if_pos hmem]
      rfl
  · rintro rfl
    split
    · exact Or.inr rfl
    · split
      · exact Or.inr rfl
      · exact Or.inl rfl

/-- **The counts agree with the marks** just if namesakes come to the same end. -/
theorem countsAgree_iff (h : Fated told r) : CountsAgree r ↔ Unanimous told := by
  rw [h.countsAgree_iff_countP, ← bestAmong_iff]
  constructor
  · rintro ⟨happlied, hfetched, hfailed⟩
    -- one after the other: as many ends are the best as are one's own, so they are the same
    have hsameApplied := iff_of_countP_eq (fun x hx => by
      simpa using (bestAmong_of_mem hx).1) happlied.symm
    have hsameFetched := iff_of_countP_eq (fun x hx => (bestAmong_of_mem hx).2.1) hfetched.symm
    have hsameFailed := iff_of_countP_eq (fun x hx => by
      intro hown
      have hown : x.2 = .failed := by simpa using hown
      rcases (bestAmong_of_mem hx).2.2 hown with heq | hbetter
      · simpa using heq
      · rw [← hsameFetched x hx, hown] at hbetter
        cases hbetter) hfailed.symm
    intro x hx
    have ha := hsameApplied x hx
    have hd := hsameFetched x hx
    have hf := hsameFailed x hx
    revert ha hd hf
    cases bestAmong told x.1 <;> cases x.2 <;> simp [Fate.fetched]
  · intro hown
    refine ⟨?_, ?_, ?_⟩
    all_goals
      refine List.countP_congr fun x hx => ?_
      rw [hown x hx]

/-- **If namesakes come to the same end the mark says where a candidate is found.** -/
theorem marker_of_unanimous (h : Fated told r) (hsame : Unanimous told) (hc : c ∈ r.considered) :
    Report.marker r c =
      if c ∈ r.applied then " (applied)"
      else if c ∈ r.downloaded then " (downloaded)"
      else if some c.id ∈ r.failedPackages.map FailureRecord.package then " (failed)"
      else "" := by
  rw [← h.considered] at hc
  obtain ⟨⟨c, f⟩, hx, rfl⟩ := List.mem_map.mp hc
  have hmark : Report.marker r c = f.mark := h.marker_iff.mpr hsame _ hx
  have honly : ∀ g, (c, g) ∈ told ↔ g = f := fun g =>
    ⟨fun hg => hsame _ hg _ hx rfl, fun heq => heq ▸ hx⟩
  have hfailed : .failed ∈ namesakes told c.id ↔ f = .failed := by
    rw [mem_namesakes]
    constructor
    · rintro ⟨d, hd, hid⟩
      exact (hsame _ hd _ hx hid).symm
    · rintro rfl
      exact ⟨c, hx, rfl⟩
  have hdownloaded : c ∈ r.downloaded ↔ f.fetched = true := by
    rw [h.mem_downloaded]
    constructor
    · rintro ⟨g, hg, hfetched⟩
      exact (honly g).mp hg ▸ hfetched
    · exact fun hfetched => ⟨f, hx, hfetched⟩
  dsimp only
  rw [hmark]
  simp only [h.mem_applied, hdownloaded, h.mem_failed, honly, hfailed]
  cases f <;> simp [Fate.mark, Fate.fetched]

end Fated

/-! ### The report -/

namespace Report

/-- The lines of a body above the candidates, with the counts among them. -/
def heading (r : RunResult) : String :=
  "Run started:  " ++ r.startedAt.text ++ "\n" ++
    (match r.finishedAt with
      | some instant => "Run finished: " ++ instant.text ++ "\n"
      | none => "") ++
    "Outcome:      " ++ r.outcome.name ++
    (match r.abortKind with
      | some k => " (" ++ k.name ++ ")"
      | none => "") ++ "\n" ++
    "Mode:         " ++ r.mode.name ++ "\n" ++
    "Packages:     " ++ counts r ++ "\n" ++
    "Reboot:       " ++ rebootText r.reboot ++ "\n"

/-- The lines below the candidates. -/
def problems (r : RunResult) : String :=
  listUnder "Failures:" (r.failures.map failureText) ++
    listUnder "Warnings:" (r.warnings.map failureText)

/-- The body with given ends. -/
def bodyWith (told : List (Candidate × Fate)) (r : RunResult) : String :=
  heading r ++
    listUnder (candidatesHeader r.mode) (told.map fun x => packageText x.1 ++ x.2.mark) ++
      problems r

/-- **A body has a line for each candidate**, in order, with the mark of the best end among
namesakes. -/
theorem body_render (h : Fated told r) :
    (render r).body = bodyWith (told.map fun x => (x.1, bestAmong told x.1)) r := by
  have hlines : (r.considered.map fun c => packageText c ++ marker r c) =
      (told.map fun x => (x.1, bestAmong told x.1)).map fun x =>
        packageText x.1 ++ x.2.mark := by
    rw [← h.considered, List.map_map, List.map_map]
    refine List.map_congr_left fun x _ => ?_
    simp only [Function.comp_apply, h.marker_eq]
  have hbody : bodyOf r = heading r ++ listUnder (candidatesHeader r.mode)
      (r.considered.map fun c => packageText c ++ marker r c) ++ problems r := by
    unfold bodyOf heading problems
    exact String.append_assoc
  rw [bodyWith, ← hlines]
  exact hbody

end Report

/-! ### The ends of a run -/

namespace Run

variable {s : Settings} {h : History}

/-- What became of the candidate at an index of those that were considered, by what the history says
about the downloads: its artifact was verified or was not. Whether all that was downloaded was
applied is in the result. -/
inductive EndsAs (s : Settings) (h : History) (r : RunResult) (i : Nat) (c : Candidate) :
    Fate → Prop
  /-- The downloads did not report. -/
  | untouched (lost : ¬∃ report, DownloadsReturned s h r.considered report) :
      EndsAs s h r i c .untouched
  /-- Its artifact was not verified. -/
  | failed {report : Download.Report} (returned : DownloadsReturned s h r.considered report)
      (unverified : (h.during .download).verified? i c = none) : EndsAs s h r i c .failed
  /-- It was, and nothing was applied. -/
  | downloaded {report : Download.Report} (returned : DownloadsReturned s h r.considered report)
      (verified : (h.during .download).verified? i c ≠ none) (kept : r.applied = []) :
      EndsAs s h r i c .downloaded
  /-- It was, and was applied with the others. -/
  | applied {report : Download.Report} (returned : DownloadsReturned s h r.considered report)
      (verified : (h.during .download).verified? i c ≠ none) (installed : r.applied ≠ []) :
      EndsAs s h r i c .applied

/-- The end of a candidate whose artifact was verified, or was not, when the downloads reported. -/
def fateOf (r : RunResult) (verified : Bool) : Fate :=
  if verified then (if r.applied = [] then .downloaded else .applied) else .failed

theorem fetched_fateOf (r : RunResult) (verified : Bool) :
    (fateOf r verified).fetched = verified := by
  cases verified
  · rfl
  · rw [fateOf, if_pos rfl]
    split <;> rfl

theorem fateOf_eq_failed {r : RunResult} {verified : Bool} :
    fateOf r verified = .failed ↔ verified = false := by
  cases verified
  · simp [fateOf]
  · rw [fateOf, if_pos rfl]
    split <;> simp

theorem fateOf_eq_applied {r : RunResult} {verified : Bool} :
    fateOf r verified = .applied ↔ verified = true ∧ r.applied ≠ [] := by
  cases verified
  · simp [fateOf]
  · rw [fateOf, if_pos rfl]
    split
    · rename_i hnil
      simp [hnil]
    · rename_i hsome
      simp [hsome]

/-- The candidates of verified artifacts. -/
theorem candidates_filterMap (verified? : Nat → Candidate → Option String)
    (l : List (Candidate × Nat)) :
    (l.filterMap fun (c, i) => (verified? i c).map (Artifact.mk c)).map Artifact.candidate =
      (l.filter fun x => (verified? x.2 x.1).isSome).map Prod.fst := by
  induction l with
  | nil => rfl
  | cons x l ih =>
    obtain ⟨c, i⟩ := x
    cases hv : verified? i c with
    | none => simp [hv, ih]
    | some path => simp [hv, ih]

/-- Once the downloads reported the lists of the result are made of the candidates whose artifacts
were verified, and of the others. -/
theorem tells_verified {r : RunResult} {report : Download.Report} (hr : r.Consistent)
    (ha : Accounted s h r) (hreturned : DownloadsReturned s h r.considered report) :
    Fated (r.considered.zipIdx.map fun x =>
      (x.1, fateOf r ((h.during .download).verified? x.2 x.1).isSome)) r := by
  obtain ⟨hdownloaded, failed, hparted, hfailed⟩ := ha.returned report hreturned
  rw [(Download.leads_all_succeeded hreturned.2.1).1, History.verified,
    candidates_filterMap] at hdownloaded
  refine ⟨?_, ?_, ?_, ?_⟩
  · rw [List.map_map]
    exact List.zipIdx_map_fst 0 r.considered
  · rw [List.filter_map, List.map_map]
    by_cases hnil : r.applied = []
    · simp [fateOf_eq_applied, hnil]
    · rw [hr.applied.resolve_left hnil, hdownloaded]
      simp [Function.comp_def, fateOf_eq_applied, hnil]
  · rw [List.filter_map, List.map_map, hdownloaded]
    simp [Function.comp_def, fetched_fateOf]
  · have hothers : failed.Perm ((r.considered.zipIdx.filter fun x =>
        !((h.during .download).verified? x.2 x.1).isSome).map Prod.fst) := by
      have hall := (List.filter_append_perm
        (fun x : Candidate × Nat => ((h.during .download).verified? x.2 x.1).isSome)
        r.considered.zipIdx).map Prod.fst
      rw [List.map_append, List.zipIdx_map_fst, ← hdownloaded] at hall
      exact (List.perm_append_left_iff r.downloaded).mp (hparted.perm.symm.trans hall.symm)
    rw [hfailed, List.filter_map, List.map_map]
    refine (hothers.map _).trans (List.Perm.of_eq ?_)
    rw [List.map_map]
    refine congrArg _ (List.filter_congr fun x _ => ?_)
    simp only [Function.comp_apply, fateOf_eq_failed]
    cases ((h.during .download).verified? x.2 x.1).isSome <;> rfl

/-- In every run each candidate comes to an end, and the lists of the result are made of these. -/
theorem exists_told {r : RunResult} (hr : r.Consistent) (ha : Accounted s h r) :
    ∃ told, Fated told r ∧ ∀ i c f, told[i]? = some (c, f) → EndsAs s h r i c f := by
  by_cases hreturned : ∃ report, DownloadsReturned s h r.considered report
  · obtain ⟨report, hreturned⟩ := hreturned
    refine ⟨_, tells_verified hr ha hreturned, fun i c f hi => ?_⟩
    rw [List.getElem?_map, List.getElem?_zipIdx, Option.map_map, Option.map_eq_some_iff] at hi
    obtain ⟨d, -, heq⟩ := hi
    rw [Function.comp_apply, Nat.zero_add] at heq
    obtain ⟨rfl, rfl⟩ := Prod.mk.inj heq
    dsimp only
    cases hv : (h.during .download).verified? i d with
    | none => exact .failed hreturned hv
    | some path =>
      rw [Option.isSome_some, fateOf, if_pos rfl]
      split
      · rename_i hnil
        exact .downloaded hreturned (by simp [hv]) hnil
      · rename_i hsome
        exact .applied hreturned (by simp [hv]) hsome
  · obtain ⟨hdownloaded, hfailed⟩ := ha.lost hreturned
    have happlied : r.applied = [] := by
      rcases hr.applied with hnil | hall
      · exact hnil
      · rw [hall, hdownloaded]
    refine ⟨r.considered.map fun c => (c, .untouched), ⟨?_, ?_, ?_, ?_⟩, fun i c f hi => ?_⟩
    · rw [List.map_map]
      exact List.map_id _
    · rw [happlied]
      simp
    · rw [hdownloaded]
      simp [Fate.fetched]
    · rw [hfailed]
      simp
    · rw [List.getElem?_map, Option.map_eq_some_iff] at hi
      obtain ⟨d, -, heq⟩ := hi
      cases heq
      exact .untouched hreturned

/-- **The report of every run.** Its body has a line for each candidate that was considered, in
order, with the mark of the best end that the candidate or a namesake came to. The marks are those
of the candidates' own ends just if namesakes come to the same end, and that is also when they agree
with the counts above them. Without namesakes it is always so. -/
theorem leads_fates {record : Record} (hl : (run s).Leads h record) :
    ∃ told, Fated told record.result ∧
      (∀ i c f, told[i]? = some (c, f) → EndsAs s h record.result i c f) ∧
      (Report.render record.result).body =
        Report.bodyWith (told.map fun x => (x.1, bestAmong told x.1)) record.result ∧
      ((∀ x ∈ told, Report.marker record.result x.1 = x.2.mark) ↔ Unanimous told) ∧
      (CountsAgree record.result ↔ Unanimous told) ∧
      (Unanimous told →
        (Report.render record.result).body = Report.bodyWith told record.result ∧
        ∀ c ∈ record.result.considered, Report.marker record.result c =
          if c ∈ record.result.applied then " (applied)"
          else if c ∈ record.result.downloaded then " (downloaded)"
          else if some c.id ∈ record.result.failedPackages.map FailureRecord.package
            then " (failed)"
          else "") ∧
      ((record.result.considered.map Candidate.id).Nodup → Unanimous told) := by
  obtain ⟨-, hconsistent, haccounted, -⟩ := leads_consistent hl
  obtain ⟨told, hfated, hends⟩ := exists_told hconsistent haccounted
  refine ⟨told, hfated, hends, Report.body_render hfated, hfated.marker_iff, hfated.countsAgree_iff,
    fun hsame => ⟨?_, fun c hc => hfated.marker_of_unanimous hsame hc⟩, fun hnodup => ?_⟩
  · rw [Report.body_render hfated, List.map_congr_left (g := id) fun x hx => ?_, List.map_id]
    rw [bestAmong_iff.mpr hsame x hx]
    rfl
  · refine unanimous_of_nodup ?_
    rw [← hfated.considered, List.map_map] at hnodup
    exact hnodup

/-- A candidate without namesakes that is applied is reported so. -/
theorem leads_fates_smooth : ∃ h record, (run applying).Leads h record ∧
    ∃ told, Fated told record.result ∧ (bash, .applied) ∈ told ∧
      (Report.render record.result).body = Report.bodyWith told record.result ∧
      Report.marker record.result bash = " (applied)" ∧ CountsAgree record.result := by
  have hl := Program.leads_history (smooth [bash]) (run applying) ()
  obtain ⟨told, hfated, -, -, hmarks, hcounts, hsame, hnodup⟩ := leads_fates hl
  have hunanimous := hnodup (by decide +kernel)
  have hbash : (bash, .applied) ∈ told := hfated.mem_applied.mp (by decide +kernel)
  exact ⟨_, _, hl, told, hfated, hbash, (hsame hunanimous).1, hmarks.mpr hunanimous _ hbash,
    hcounts.mpr hunanimous⟩

/-- A later version that another digest is expected of. -/
def corrupt : Candidate := { bash with newVersion := "1.2-1", checksum := some ⟨.sha256, "cd"⟩ }

/-- A smooth run goes on with what is selected of what is offered. -/
theorem run_smooth (offered : List Candidate) :
    (run applying).run (smooth offered) () =
      (fromQuery applying (Selection.select offered .all ["updates"] [])).run (smooth offered) () :=
  rfl

/-- **A candidate that failed can be reported as applied.** One of two namesakes was applied and the
other failed; both are said to be applied, and the counts say that one was and one was not. -/
theorem misreported_twins : ∃ h record, (run applying).Leads h record ∧
    record.result.considered = [bash, corrupt] ∧ record.result.applied = [bash] ∧
    record.result.failedPackages.map FailureRecord.package = [some corrupt.id] ∧
    Report.marker record.result bash = " (applied)" ∧
    Report.marker record.result corrupt = " (applied)" ∧ ¬CountsAgree record.result := by
  have hl := Program.leads_history (smooth [bash, corrupt]) (run applying) ()
  have hselect : Selection.select [bash, corrupt] .all ["updates"] [] = [bash, corrupt] :=
    Selection.select_eq_self (by decide +kernel) (by decide +kernel)
  rw [run_smooth, hselect] at hl
  refine ⟨_, _, hl, by decide +kernel, by decide +kernel, by decide +kernel, by decide +kernel,
    by decide +kernel, fun hcounts => ?_⟩
  have happlied := hcounts.applied
  revert happlied
  decide +kernel

end Run

end Upkeep
