import Upkeep.Dnf.Fetch
import Upkeep.Proofs.Selection

/-!
# Which advisory a candidate gets

A package may be listed under any number of advisories, and a candidate carries one. It is the
foremost of those listed for the candidate: the first one among those that matter most. A candidate
may be listed with its epoch or without; those without it only count when there are none with it.

Which advisory a candidate gets is settled before the scope of a run is known. So a scope of named
advisories selects the candidates whose foremost advisory is named, and these only. A candidate that
a named advisory fixes is left out when another one is foremost.

## Main definitions

* `Foremost`: the first advisory among those that matter most.
* `listed`, `Mentions`: the advisories listed for a candidate.
* `Assigned`, `Named`: the advisory that a candidate gets, and whether it is named.

## Main results

* `advisoryFor_eq_some_iff`: the foremost advisory under a name.
* `select_ofAdvisories`: what a scope of named advisories selects.
* `not_select_mentioned`: it does not select whatever a named advisory is listed for.
-/

namespace Upkeep

namespace Scope

variable {id x : String} {ids : List String}

theorem mem_insertId : x ∈ insertId id ids ↔ x = id ∨ x ∈ ids := by
  induction ids with
  | nil => simp [insertId]
  | cons y ys ih =>
    rw [insertId]
    split
    · simp
    · split
      · rename_i heq
        obtain rfl : id = y := by simpa using heq
        simp
      · rw [List.mem_cons, ih, or_left_comm, List.mem_cons]

theorem mem_foldr_insertId : x ∈ ids.foldr insertId [] ↔ x ∈ ids := by
  induction ids with
  | nil => simp
  | cons y ys ih => rw [List.foldr_cons, mem_insertId, ih, List.mem_cons]

/-- A candidate is in a scope of named advisories if its advisory is named. -/
theorem matches_ofAdvisories {c : Candidate} :
    (ofAdvisories ids).matches? c = true ↔ ∃ a, c.advisory = some a ∧ a.id ∈ ids := by
  rw [ofAdvisories, matches?]
  cases c.advisory with
  | none => simp
  | some a => simp [mem_foldr_insertId]

end Scope

namespace Dnf

/-- The first advisory among those that matter most. -/
def Foremost (as : List Advisory) (a : Advisory) : Prop :=
  ∃ before after, as = before ++ a :: after ∧ (∀ x ∈ before, rank x < rank a) ∧
    ∀ x ∈ after, rank x ≤ rank a

/-- The advisories listed under a name, in order. -/
def listed (advisories : List (String × Advisory)) (nevra : String) : List Advisory :=
  (advisories.filter fun line => line.1 == nevra).map Prod.snd

/-- The advisory that a candidate gets: the foremost one listed for it with its epoch, or without it
when there is none. -/
def Assigned (advisories : List (String × Advisory)) (c : Candidate) (a : Advisory) : Prop :=
  Foremost (listed advisories c.nevra) a ∨
    listed advisories c.nevra = [] ∧ Foremost (listed advisories (fileStem c)) a

/-- The candidate gets an advisory that is named. -/
def Named (advisories : List (String × Advisory)) (ids : List String) (c : Candidate) : Prop :=
  ∃ a, Assigned advisories c a ∧ a.id ∈ ids

/-- The line is about the candidate, with its epoch or without it. -/
def Mentions (line : String × Advisory) (c : Candidate) : Prop :=
  line.1 = c.nevra ∨ line.1 = fileStem c

section

variable {advisories : List (String × Advisory)} {as : List Advisory} {a b : Advisory}
  {nevra : String} {c : Candidate} {ids : List String}

/-! ### The foremost advisory -/

theorem Foremost.mem (hf : Foremost as a) : a ∈ as := by
  obtain ⟨before, after, rfl, -, -⟩ := hf
  simp

theorem Foremost.rank_le (hf : Foremost as a) : ∀ x ∈ as, rank x ≤ rank a := by
  obtain ⟨before, after, rfl, hbefore, hafter⟩ := hf
  intro x hx
  rcases List.mem_append.mp hx with hx | hx
  · exact Nat.le_of_lt (hbefore x hx)
  · rcases List.mem_cons.mp hx with rfl | hx
    · exact Nat.le_refl _
    · exact hafter x hx

theorem Foremost.cons (hf : Foremost as a) (hlt : rank b < rank a) : Foremost (b :: as) a := by
  obtain ⟨before, after, rfl, hbefore, hafter⟩ := hf
  exact ⟨b :: before, after, rfl, List.forall_mem_cons.mpr ⟨hlt, hbefore⟩, hafter⟩

/-- An advisory that does not matter more than the one before it is not foremost, and keeps none
from being so. -/
theorem Foremost.insert {x : Advisory} (hf : Foremost (b :: as) a) (hle : rank x ≤ rank b) :
    Foremost (b :: x :: as) a := by
  obtain ⟨before, after, heq, hbefore, hafter⟩ := hf
  cases before with
  | nil =>
    obtain ⟨rfl, rfl⟩ := List.cons_eq_cons.mp heq
    exact ⟨[], x :: as, rfl, by simp, List.forall_mem_cons.mpr ⟨hle, hafter⟩⟩
  | cons b' before =>
    obtain ⟨rfl, rfl⟩ := List.cons_eq_cons.mp heq
    obtain ⟨hlt, hbefore⟩ := List.forall_mem_cons.mp hbefore
    exact ⟨b :: x :: before, after, rfl, List.forall_mem_cons.mpr
      ⟨hlt, List.forall_mem_cons.mpr ⟨Nat.lt_of_le_of_lt hle hlt, hbefore⟩⟩, hafter⟩

theorem foremost_foldl (b : Advisory) (as : List Advisory) :
    ∃ a, as.foldl keepHigher (some b) = some a ∧ Foremost (b :: as) a := by
  induction as generalizing b with
  | nil => exact ⟨b, rfl, [], [], rfl, by simp, by simp⟩
  | cons x as ih =>
    rw [List.foldl_cons, keepHigher]
    split
    · rename_i hlt
      obtain ⟨a, hfold, hf⟩ := ih x
      exact ⟨a, hfold, hf.cons (Nat.lt_of_lt_of_le hlt (hf.rank_le x List.mem_cons_self))⟩
    · rename_i hle
      obtain ⟨a, hfold, hf⟩ := ih b
      exact ⟨a, hfold, hf.insert (Nat.le_of_not_lt hle)⟩

/-- There is one foremost advisory. -/
theorem Foremost.unique {a' : Advisory} (hf : Foremost as a) (hf' : Foremost as a') : a = a' := by
  obtain ⟨before, after, rfl, hbefore, hafter⟩ := hf
  obtain ⟨before', after', heq, hbefore', hafter'⟩ := hf'
  rcases List.append_eq_append_iff.mp heq with ⟨more, rfl, hmore⟩ | ⟨more, rfl, hmore⟩
  · cases more with
    | nil => exact (List.cons_eq_cons.mp hmore).1
    | cons x more =>
      obtain ⟨rfl, rfl⟩ := List.cons_eq_cons.mp hmore
      exact absurd (hbefore' a (by simp)) (Nat.not_lt.mpr (hafter a' (by simp)))
  · cases more with
    | nil => exact (List.cons_eq_cons.mp hmore).1.symm
    | cons x more =>
      obtain ⟨rfl, rfl⟩ := List.cons_eq_cons.mp hmore
      exact absurd (hbefore a' (by simp)) (Nat.not_lt.mpr (hafter' a (by simp)))

/-! ### Under a name -/

theorem mem_listed : a ∈ listed advisories nevra ↔ (nevra, a) ∈ advisories := by
  simp [listed]

theorem advisoryFor_eq (advisories : List (String × Advisory)) (nevra : String) :
    advisoryFor advisories nevra = (listed advisories nevra).foldl keepHigher none := rfl

theorem advisoryFor_eq_none_iff :
    advisoryFor advisories nevra = none ↔ listed advisories nevra = [] := by
  rw [advisoryFor_eq]
  cases listed advisories nevra with
  | nil => exact ⟨fun _ => rfl, fun _ => rfl⟩
  | cons b as =>
    obtain ⟨a, hfold, -⟩ := foremost_foldl b as
    simp [keepHigher, hfold]

/-- **The advisory for a name** is the foremost one of those listed under it. -/
theorem advisoryFor_eq_some_iff :
    advisoryFor advisories nevra = some a ↔ Foremost (listed advisories nevra) a := by
  rw [advisoryFor_eq]
  cases listed advisories nevra with
  | nil => exact ⟨fun hnone => (by cases hnone), fun hf => absurd hf.mem (by simp)⟩
  | cons b as =>
    obtain ⟨a', hfold, hf'⟩ := foremost_foldl b as
    rw [List.foldl_cons, keepHigher, hfold]
    constructor
    · intro heq
      cases heq
      exact hf'
    · intro hf
      rw [hf'.unique hf]

/-! ### Of a candidate -/

/-- **The advisory that a candidate gets.** -/
theorem advisory_attachAdvisory :
    (attachAdvisory advisories c).advisory = some a ↔ Assigned advisories c a := by
  rw [attachAdvisory, Option.or_eq_some_iff, advisoryFor_eq_some_iff, advisoryFor_eq_none_iff,
    advisoryFor_eq_some_iff]
  rfl

/-- A candidate gets an advisory that is listed for it. -/
theorem Assigned.exists_line (ha : Assigned advisories c a) :
    ∃ line ∈ advisories, Mentions line c ∧ line.2 = a := by
  rcases ha with hf | ⟨-, hf⟩
  · exact ⟨(c.nevra, a), mem_listed.mp hf.mem, Or.inl rfl, rfl⟩
  · exact ⟨(fileStem c, a), mem_listed.mp hf.mem, Or.inr rfl, rfl⟩

/-- A candidate for which an advisory is listed gets one. -/
theorem exists_assigned {line : String × Advisory} (hline : line ∈ advisories)
    (hmentions : Mentions line c) : ∃ a, Assigned advisories c a := by
  by_cases hnone : (attachAdvisory advisories c).advisory = none
  · rw [attachAdvisory, Option.or_eq_none_iff, advisoryFor_eq_none_iff, advisoryFor_eq_none_iff]
      at hnone
    obtain ⟨name, a⟩ := line
    have hlisted : a ∈ listed advisories name := mem_listed.mpr hline
    rcases hmentions with rfl | rfl
    · rw [hnone.1] at hlisted
      cases hlisted
    · have hbare : listed advisories (fileStem c) = [] := hnone.2
      rw [hbare] at hlisted
      cases hlisted
  · obtain ⟨a, ha⟩ := Option.ne_none_iff_exists'.mp hnone
    exact ⟨a, advisory_attachAdvisory.mp ha⟩

theorem named_iff : Named advisories ids c ↔
    (Scope.ofAdvisories ids).matches? (attachAdvisory advisories c) = true := by
  rw [Scope.matches_ofAdvisories, Named]
  simp only [advisory_attachAdvisory]

instance (advisories : List (String × Advisory)) (ids : List String) :
    DecidablePred (Named advisories ids) :=
  fun _ => decidable_of_iff' _ named_iff

end

/-! ### What is selected -/

/-- **What a scope of named advisories selects**, when every repository is usable and nothing is
excluded: the candidates whose advisory is named, each as often as it is listed. Each of them is
mentioned on the line of a named advisory; and of the candidates that are mentioned there only those
can be missing that are also mentioned on the line of another one. -/
theorem select_ofAdvisories (upgrades advisories : String) (ids available exclude : List String)
    (usable : ∀ c ∈ parseUpgrades upgrades, c.repo ∈ available)
    (kept : ∀ c ∈ parseUpgrades upgrades, ∀ p ∈ Selection.patterns exclude,
      Glob.matchesText p c.name = false) :
    (Selection.select (attachAdvisories (parseUpgrades upgrades) (parseAdvisories advisories))
        (Scope.ofAdvisories ids) available exclude).Perm
      (((parseUpgrades upgrades).filter (Named (parseAdvisories advisories) ids)).map
        (attachAdvisory (parseAdvisories advisories))) ∧
    (∀ c, Named (parseAdvisories advisories) ids c →
      ∃ line ∈ parseAdvisories advisories, Mentions line c ∧ line.2.id ∈ ids) ∧
    ∀ c, ∀ line ∈ parseAdvisories advisories, Mentions line c →
      (∀ line' ∈ parseAdvisories advisories, Mentions line' c → line'.2.id ∈ ids) →
        Named (parseAdvisories advisories) ids c := by
  refine ⟨(List.mergeSort_perm _ _).trans (List.Perm.of_eq ?_), ?_, ?_⟩
  · rw [attachAdvisories, List.filter_map]
    congr 1
    refine List.filter_congr fun c hc => Bool.eq_iff_iff.mpr ?_
    rw [Function.comp_apply, Selection.wanted_iff, decide_eq_true_iff, named_iff]
    exact ⟨fun hwanted => hwanted.2.2, fun hmatches => ⟨usable c hc, kept c hc, hmatches⟩⟩
  · rintro c ⟨a, ha, hid⟩
    obtain ⟨line, hline, hmentions, rfl⟩ := ha.exists_line
    exact ⟨line, hline, hmentions, hid⟩
  · intro c line hline hmentions hall
    obtain ⟨a, ha⟩ := exists_assigned hline hmentions
    obtain ⟨line', hline', hmentions', rfl⟩ := ha.exists_line
    exact ⟨line'.2, ha, hall line' hline' hmentions'⟩

/-- An upgrade of `bash`. -/
def bash : Candidate where
  name := "bash"
  arch := "x86_64"
  oldVersion := none
  newVersion := "5.2-4"
  repo := "updates"
  advisory := none
  location := none
  checksum := none

/-- The same, as it is listed. -/
def bashUpgrade : String := "bash\tx86_64\t5.2-4\tupdates\t(none)\t\n"

/-- Two advisories for it, of which the second one matters more. -/
def bashAdvisories : String :=
  "F-1 bugfix bash-5.2-4.x86_64\nF-2 Important/Sec. bash-5.2-4.x86_64\n"

/-- The scope of the second one selects the upgrade. -/
theorem select_ofAdvisories_bash : (Selection.select
    (attachAdvisories (parseUpgrades bashUpgrade) (parseAdvisories bashAdvisories))
    (Scope.ofAdvisories ["F-2"]) ["updates"] []).length = 1 := by
  have hselected := (select_ofAdvisories bashUpgrade bashAdvisories ["F-2"] ["updates"] []
    (by decide +kernel) (by decide +kernel)).1
  rw [hselected.length_eq]
  decide +kernel

/-- **A scope of named advisories does not select whatever they are listed for.** The scope of the
first one selects nothing. -/
theorem not_select_mentioned : ¬∀ (upgrades advisories : String) (ids available : List String),
    ids ≠ [] → (∀ c ∈ parseUpgrades upgrades, c.repo ∈ available) → ∀ c ∈ parseUpgrades upgrades,
      (attachAdvisory (parseAdvisories advisories) c ∈
          Selection.select (attachAdvisories (parseUpgrades upgrades) (parseAdvisories advisories))
            (Scope.ofAdvisories ids) available [] ↔
        ∃ line ∈ parseAdvisories advisories, Mentions line c ∧ line.2.id ∈ ids) := by
  intro hall
  have hlisted :
      ("bash-5.2-4.x86_64", ⟨"F-1", .bugfix, none⟩) ∈ parseAdvisories bashAdvisories := by
    decide +kernel
  have hnone : Selection.select
      (attachAdvisories (parseUpgrades bashUpgrade) (parseAdvisories bashAdvisories))
      (Scope.ofAdvisories ["F-1"]) ["updates"] [] = [] := by
    decide +kernel
  have hselected := (hall bashUpgrade bashAdvisories ["F-1"] ["updates"] (by decide)
    (by decide +kernel) bash (by decide +kernel)).mpr
      ⟨_, hlisted, Or.inl (by decide +kernel), by decide⟩
  rw [hnone] at hselected
  cases hselected

end Dnf

end Upkeep
