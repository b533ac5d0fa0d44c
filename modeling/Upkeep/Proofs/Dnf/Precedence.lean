import Mathlib.Data.List.Forall2
import Upkeep.Proofs.Dnf.Advisories

/-!
# What a candidate loses by carrying one advisory

Of the advisories that are listed for a candidate only one is kept. None that a scope asks for is
lost by that: a scope of security fixes, of any severity, has a candidate if and only if it would
have it for one of the advisories listed. The reason is the order in which advisories come before
one another. A security fix comes before everything else, and among security fixes the more severe
one; one of unknown severity comes last. So the advisory that is kept stands for all of them.

`rank` puts this order into numbers, which is how the foremost advisory is found. The order itself
is stated here without numbers, and the numbers are compared with it once (`rank_lt_iff`).

## Main definitions

* `Below`: which advisory matters less.
* `Supreme`: no advisory matters more.
* `relevant`: the advisories among which the one of a candidate is chosen.
* `Attached`: what becomes of a candidate.

## Main results

* `rank_lt_iff`: the numbers are in the order of the advisories.
* `Foremost.find?_eq`: the foremost advisory is the first one than which none matters more.
* `attached`: the advisory of each candidate, and what scopes make of it.
-/

namespace Upkeep.Dnf

/-- The first severity is below the second one. An unknown severity is below all others. -/
def LessSevere : Option Severity → Option Severity → Prop
  | _, none => False
  | none, some _ => True
  | some s, some t => s.rank < t.rank

instance : DecidableRel LessSevere
  | none, none => inferInstanceAs (Decidable False)
  | some _, none => inferInstanceAs (Decidable False)
  | none, some _ => inferInstanceAs (Decidable True)
  | some s, some t => inferInstanceAs (Decidable (s.rank < t.rank))

/-- The first advisory matters less than the second one: only the second is a security fix, or they
agree in that and the first is less severe. -/
def Below (a b : Advisory) : Prop :=
  (a.isSecurity = false ∧ b.isSecurity = true) ∨
    a.isSecurity = b.isSecurity ∧ LessSevere a.severity b.severity

instance : DecidableRel Below :=
  fun _ _ => inferInstanceAs (Decidable (_ ∨ _))

/-- None of the advisories matters more. -/
def Supreme (as : List Advisory) (a : Advisory) : Prop := ∀ x ∈ as, ¬Below a x

instance (as : List Advisory) : DecidablePred (Supreme as) :=
  fun a => inferInstanceAs (Decidable (∀ x ∈ as, ¬Below a x))

/-- The advisories among which the one of a candidate is chosen: those listed under its name with
the epoch, or without it when there are none. -/
def relevant (advisories : List (String × Advisory)) (c : Candidate) : List Advisory :=
  if listed advisories c.nevra = [] then listed advisories (fileStem c)
  else listed advisories c.nevra

/-- What becomes of a candidate. -/
structure Attached (advisories : List (String × Advisory)) (c c' : Candidate) : Prop where
  /-- It gets the first advisory than which none matters more, and is otherwise the same. -/
  kept : c' = { c with
    advisory := (relevant advisories c).find? fun a => Supreme (relevant advisories c) a }
  /-- It gets none only if there is none. -/
  bare : c'.advisory = none ↔ relevant advisories c = []
  /-- It is a security fix if one of the advisories is. -/
  security : Scope.security.matches? c' = true ↔ ∃ a ∈ relevant advisories c, a.isSecurity = true
  /-- It is one of some severity, or of a higher one, if one of the advisories is. -/
  severity : ∀ least : Severity, (Scope.severity least).matches? c' = true ↔
    ∃ a ∈ relevant advisories c, a.isSecurity = true ∧
      ∃ s, a.severity = some s ∧ least.rank ≤ s.rank

variable {advisories : List (String × Advisory)} {as : List Advisory} {a b : Advisory}
  {c : Candidate}

/-! ### The order and its numbers -/

/-- The share of the severity in the rank. -/
def severityRank : Option Severity → Nat
  | none => 0
  | some s => s.rank + 1

theorem rank_eq (a : Advisory) :
    rank a = (if a.isSecurity then 8 else 0) + severityRank a.severity := by
  rw [rank]
  cases a.severity <;> rfl

/-- The severity never outweighs what an advisory is about. -/
theorem severityRank_lt (o : Option Severity) : severityRank o < 8 := by
  rcases o with _ | s
  · decide
  · cases s <;> decide

theorem severityRank_lt_iff {o o' : Option Severity} :
    severityRank o < severityRank o' ↔ LessSevere o o' := by
  rcases o with _ | s <;> rcases o' with _ | t <;> simp [severityRank, LessSevere]

/-- **The numbers are in the order of the advisories.** -/
theorem rank_lt_iff : rank a < rank b ↔ Below a b := by
  rw [rank_eq, rank_eq, Below, ← severityRank_lt_iff]
  have ha := severityRank_lt a.severity
  have hb := severityRank_lt b.severity
  cases a.isSecurity <;> cases b.isSecurity <;> simp <;> omega

theorem le_rank_iff_isSecurity : 8 ≤ rank a ↔ a.isSecurity = true := by
  rw [rank_eq]
  have ha := severityRank_lt a.severity
  cases a.isSecurity
  · simp
    omega
  · simp

/-- What makes an advisory one of some severity can be read off its rank. -/
theorem le_rank_iff_severity {least : Severity} : 9 + least.rank ≤ rank a ↔
    a.isSecurity = true ∧ ∃ s, a.severity = some s ∧ least.rank ≤ s.rank := by
  rw [rank_eq]
  cases a.isSecurity with
  | false =>
    have ha := severityRank_lt a.severity
    simp
    omega
  | true =>
    rcases a.severity with _ | s
    · simp [severityRank]
      omega
    · simp [severityRank]
      omega

/-! ### The first of those that matter most -/

/-- The foremost advisory is the first one than which none matters more. -/
theorem Foremost.find?_eq (hf : Foremost as a) : as.find? (fun x => Supreme as x) = some a := by
  have hmax : Supreme as a := fun x hx => by
    rw [← rank_lt_iff, Nat.not_lt]
    exact hf.rank_le x hx
  have hmem := hf.mem
  obtain ⟨before, after, rfl, hbefore, -⟩ := hf
  rw [List.find?_eq_some_iff_append]
  refine ⟨decide_eq_true hmax, before, after, rfl, fun x hx => ?_⟩
  have hnot : ¬Supreme (before ++ a :: after) x := fun hx' =>
    hx' a hmem (rank_lt_iff.mp (hbefore x hx))
  simpa using hnot

theorem assigned_iff : Assigned advisories c a ↔ Foremost (relevant advisories c) a := by
  rw [Assigned, relevant]
  split
  · rename_i hnone
    rw [hnone]
    exact ⟨fun h => (h.resolve_left fun hf => absurd hf.mem (by simp)).2, fun h => Or.inr ⟨rfl, h⟩⟩
  · rename_i hsome
    exact ⟨fun h => h.resolve_right fun h => hsome h.1, Or.inl⟩

/-- Among some advisories there is a foremost one. -/
theorem exists_foremost (hne : as ≠ []) : ∃ a, Foremost as a := by
  obtain ⟨b, as, rfl⟩ := List.exists_cons_of_ne_nil hne
  obtain ⟨a, -, hf⟩ := foremost_foldl b as
  exact ⟨a, hf⟩

/-- The advisory of a candidate is the first of those that matter most. -/
theorem advisory_attachAdvisory_eq : (attachAdvisory advisories c).advisory =
    (relevant advisories c).find? fun a => Supreme (relevant advisories c) a := by
  by_cases hnone : relevant advisories c = []
  · rw [hnone, List.find?_nil, Option.eq_none_iff_forall_ne_some]
    intro a ha
    have hmem := (assigned_iff.mp (advisory_attachAdvisory.mp ha)).mem
    rw [hnone] at hmem
    cases hmem
  · obtain ⟨a, hf⟩ := exists_foremost hnone
    rw [hf.find?_eq, advisory_attachAdvisory, assigned_iff]
    exact hf

/-- What can be read off the rank of an advisory holds of the one that is kept if it holds of any:
that one has the highest rank. -/
theorem le_rank_kept_iff {n : Nat} : (∃ a, (attachAdvisory advisories c).advisory = some a ∧
    n ≤ rank a) ↔ ∃ a ∈ relevant advisories c, n ≤ rank a := by
  simp only [advisory_attachAdvisory, assigned_iff]
  constructor
  · rintro ⟨a, hf, hle⟩
    exact ⟨a, hf.mem, hle⟩
  · rintro ⟨a, ha, hle⟩
    obtain ⟨b, hf⟩ := exists_foremost (List.ne_nil_of_mem ha)
    exact ⟨b, hf, Nat.le_trans hle (hf.rank_le a ha)⟩

/-! ### Scopes -/

theorem matches_security : Scope.security.matches? c = true ↔
    ∃ a, c.advisory = some a ∧ 8 ≤ rank a := by
  simp only [Scope.matches?, Candidate.isSecurity, le_rank_iff_isSecurity]
  cases c.advisory <;> simp

theorem matches_severity {least : Severity} : (Scope.severity least).matches? c = true ↔
    ∃ a, c.advisory = some a ∧ 9 + least.rank ≤ rank a := by
  simp only [Scope.matches?, Candidate.isSecurity, Candidate.severity, le_rank_iff_severity]
  cases c.advisory with
  | none => simp
  | some a => cases hs : a.severity <;> simp [hs]

/-- **The advisory of each candidate.** Each gets the first of those that matter most, and with it
is in every scope of security fixes in which one of its advisories would put it. -/
theorem attached (advisories : List (String × Advisory)) (cs : List Candidate) :
    List.Forall₂ (Attached advisories) cs (attachAdvisories cs advisories) := by
  rw [attachAdvisories, List.forall₂_map_right_iff, List.forall₂_same]
  intro c _
  refine ⟨?kept, ?bare, ?security, fun least => ?severity⟩
  case kept =>
    rw [← advisory_attachAdvisory_eq]
    rfl
  case bare =>
    rw [advisory_attachAdvisory_eq]
    constructor
    · intro hnone
      by_contra hsome
      obtain ⟨a, hf⟩ := exists_foremost hsome
      rw [hf.find?_eq] at hnone
      cases hnone
    · intro hnil
      rw [hnil, List.find?_nil]
  case security =>
    rw [matches_security, le_rank_kept_iff]
    simp only [le_rank_iff_isSecurity]
  case severity =>
    rw [matches_severity, le_rank_kept_iff]
    simp only [le_rank_iff_severity]

end Upkeep.Dnf
