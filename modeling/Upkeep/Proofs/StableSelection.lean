import Mathlib.Data.List.Basic
import Upkeep.Proofs.Selection

/-!
# The selection as a stable sort

A selection is determined by what it selects and in which order: it is the stable sort, by name and
architecture, of the candidates that are eligible. There is one stable sort of a list, because the
candidates of one package are in a given order and packages come one after the other. Whatever else
there is to say of a selection follows from that, for two selections are compared by what they are
sorts of: selecting again changes nothing, exclusions that are not patterns do not count, and the
order in which candidates are offered shows only among those of one package.

The key of the sort is the package's identity and not the candidate. Several candidates of one
package, even equal ones, all stay.

## Main definitions

* `Selection.Eligible`: what it takes to be selected, without looking at the order of anything.
* `Selection.StableSort`: what a stable sort is.
* `Selection.SameUpToTies`: the same order of packages, and the same candidates of each.

## Main results

* `StableSort.unique`: there is one stable sort.
* `eq_select_iff`: the selection is the stable sort of the eligible candidates.
* `select_stable`: what follows from that for a second selection.
-/

namespace Upkeep.Selection

/-- A candidate is eligible: its repository is usable, no exclusion that is a pattern matches its
name, and it is in the scope. -/
def Eligible (scope : Scope) (available exclude : List String) (c : Candidate) : Prop :=
  c.repo ∈ available ∧
    (∀ raw ∈ exclude, ∀ p, Glob.parse raw = some p → Glob.matchesChars p c.name.toList = false) ∧
      scope.matches? c = true

/-- A list is the stable sort of another one by name and architecture. -/
structure StableSort (cs sorted : List Candidate) : Prop where
  /-- Nothing is lost, and nothing is added. -/
  perm : sorted.Perm cs
  /-- By name, and by architecture for equal names. -/
  ordered : Ordered sorted
  /-- Candidates of one package are in the order they had. -/
  stable : ∀ p : PackageId, sorted.filter (·.id = p) = cs.filter (·.id = p)

/-- Two lists differ at most in the order of candidates of one package. -/
structure SameUpToTies (cs cs' : List Candidate) : Prop where
  /-- The packages are the same, place by place. -/
  packages : cs.map Candidate.id = cs'.map Candidate.id
  /-- Each package has the same candidates. -/
  ties : ∀ p : PackageId, (cs.filter (·.id = p)).Perm (cs'.filter (·.id = p))

variable {scope : Scope} {available available' exclude exclude' : List String} {c a b : Candidate}
  {candidates candidates' cs cs' sorted sorted' : List Candidate}

/-! ### Eligible candidates -/

/-- What is wanted is eligible, and nothing else is. -/
theorem wanted_iff_eligible :
    wanted scope available exclude c = true ↔ Eligible scope available exclude c := by
  rw [wanted_iff, Eligible]
  refine and_congr_right fun _ => and_congr_left fun _ => ?_
  simp only [patterns, List.mem_filterMap, Glob.matchesText_eq]
  constructor
  · intro h raw hraw p hp
    exact h p ⟨raw, hraw, hp⟩
  · rintro h p ⟨raw, hraw, hp⟩
    exact h raw hraw p hp

instance : DecidablePred (Eligible scope available exclude) :=
  fun _ => decidable_of_iff _ wanted_iff_eligible

theorem filter_wanted (candidates : List Candidate) :
    candidates.filter (wanted scope available exclude) =
      candidates.filter (Eligible scope available exclude ·) :=
  List.filter_congr fun c _ => by
    rw [Bool.eq_iff_iff, wanted_iff_eligible, decide_eq_true_iff]

/-- Which repositories are usable and which patterns exclude something is all that counts. -/
theorem eligible_congr (hrepos : ∀ repo, repo ∈ available' ↔ repo ∈ available)
    (hpatterns : ∀ raw, (Glob.parse raw).isSome = true → (raw ∈ exclude' ↔ raw ∈ exclude)) :
    Eligible scope available' exclude' c ↔ Eligible scope available exclude c := by
  have hkept : ∀ {list list' : List String},
      (∀ raw, (Glob.parse raw).isSome = true → (raw ∈ list' ↔ raw ∈ list)) →
      (∀ raw ∈ list, ∀ p, Glob.parse raw = some p → Glob.matchesChars p c.name.toList = false) →
      ∀ raw ∈ list', ∀ p, Glob.parse raw = some p →
        Glob.matchesChars p c.name.toList = false := by
    intro list list' hsame h raw hraw p hp
    exact h raw ((hsame raw (by rw [hp]; rfl)).mp hraw) p hp
  rw [Eligible, Eligible, hrepos]
  exact and_congr_right fun _ => and_congr_left fun _ =>
    ⟨hkept fun raw hraw => (hpatterns raw hraw).symm, hkept hpatterns⟩

/-! ### Stable sorts -/

/-- In order, candidates come in the order of their packages. -/
theorem Ordered.head_le (h : Ordered (a :: cs)) (hb : b ∈ a :: cs) : inOrder a b = true := by
  rcases List.mem_cons.mp hb with rfl | hb
  · exact inOrder_iff.mpr (Or.inr ⟨rfl, String.le_refl _⟩)
  · exact inOrder_iff.mpr ((List.pairwise_cons.mp h).1 b hb)

/-- Only candidates of one package may stand in either order. -/
theorem id_eq_of_inOrder (hab : inOrder a b = true) (hba : inOrder b a = true) : a.id = b.id := by
  rw [inOrder_iff] at hab hba
  rcases hab with hlt | ⟨hname, harch⟩
  · rcases hba with hgt | ⟨hname, -⟩
    · exact absurd (String.lt_trans hlt hgt) (String.lt_irrefl _)
    · rw [hname] at hlt
      exact absurd hlt (String.lt_irrefl _)
  · rcases hba with hgt | ⟨-, harch'⟩
    · rw [hname] at hgt
      exact absurd hgt (String.lt_irrefl _)
    · rw [Candidate.id, Candidate.id, hname, String.le_antisymm harch harch']

/-- A candidate is in a list if it is among those of its package. -/
theorem mem_of_filter_eq (h : ∀ p : PackageId, cs.filter (·.id = p) = cs'.filter (·.id = p))
    (hc : c ∈ cs) : c ∈ cs' := by
  have hmem : c ∈ cs.filter (·.id = c.id) := List.mem_filter.mpr ⟨hc, by simp⟩
  rw [h] at hmem
  exact (List.mem_filter.mp hmem).1

/-- Lists in order are equal if each package has the same candidates in the same order. -/
theorem Ordered.eq_of_filter_eq (hcs : Ordered cs) (hcs' : Ordered cs')
    (h : ∀ p : PackageId, cs.filter (·.id = p) = cs'.filter (·.id = p)) : cs = cs' := by
  induction cs generalizing cs' with
  | nil =>
    cases cs' with
    | nil => rfl
    | cons b cs' =>
      exact absurd (mem_of_filter_eq (fun p => (h p).symm) List.mem_cons_self) (by simp)
  | cons a cs ih =>
    cases cs' with
    | nil => exact absurd (mem_of_filter_eq h List.mem_cons_self) (by simp)
    | cons b cs' =>
      have hid : a.id = b.id := id_eq_of_inOrder
        (hcs.head_le (mem_of_filter_eq (fun p => (h p).symm) List.mem_cons_self))
        (hcs'.head_le (mem_of_filter_eq h List.mem_cons_self))
      -- both are the first of their package
      have hab : a = b := by
        have hfirst := h a.id
        rw [List.filter_cons_of_pos (by simp), List.filter_cons_of_pos (by simp [hid])] at hfirst
        exact (List.cons.inj hfirst).1
      subst hab
      refine congrArg (a :: ·) (ih (List.pairwise_cons.mp hcs).2 (List.pairwise_cons.mp hcs').2 ?_)
      intro p
      have hp := h p
      by_cases hap : a.id = p
      · rw [List.filter_cons_of_pos (by simp [hap]), List.filter_cons_of_pos (by simp [hap])] at hp
        exact (List.cons.inj hp).2
      · rwa [List.filter_cons_of_neg (by simp [hap]), List.filter_cons_of_neg (by simp [hap])] at hp

/-- **There is one stable sort.** -/
theorem StableSort.unique (h : StableSort cs sorted) (h' : StableSort cs sorted') :
    sorted = sorted' :=
  h.ordered.eq_of_filter_eq h'.ordered fun p => (h.stable p).trans (h'.stable p).symm

/-- What is in order is its own stable sort. -/
theorem Ordered.stableSort (h : Ordered cs) : StableSort cs cs := ⟨.refl cs, h, fun _ => rfl⟩

theorem stableSort_mergeSort (cs : List Candidate) : StableSort cs (cs.mergeSort inOrder) := by
  refine ⟨List.mergeSort_perm cs inOrder, ?_, fun p => ?_⟩
  · exact (List.pairwise_mergeSort inOrder_trans inOrder_total cs).imp inOrder_iff.mp
  · -- those of one package may stand in any order, so the sort leaves them in theirs
    have htied : (cs.filter (·.id = p)).Pairwise fun a b => inOrder a b = true := by
      refine List.pairwise_of_forall_mem_list fun a ha b hb => ?_
      have hid : a.id = b.id := by
        have ha : a.id = p := by simpa using (List.mem_filter.mp ha).2
        have hb : b.id = p := by simpa using (List.mem_filter.mp hb).2
        rw [ha, hb]
      obtain ⟨hname, harch⟩ := PackageId.mk.inj hid
      exact inOrder_iff.mpr (Or.inr ⟨hname, harch ▸ String.le_refl _⟩)
    have hsublist : (cs.filter (·.id = p)).Sublist ((cs.mergeSort inOrder).filter (·.id = p)) := by
      have hkept := (List.sublist_mergeSort inOrder_trans inOrder_total htied
        List.filter_sublist).filter (·.id = p)
      rwa [List.filter_filter, show (fun c : Candidate => decide (c.id = p) && decide (c.id = p)) =
        (fun c => decide (c.id = p)) from funext fun c => Bool.and_self _] at hkept
    exact (hsublist.eq_of_length (((List.mergeSort_perm cs inOrder).filter _).length_eq.symm)).symm

/-- **The selection is the stable sort of the eligible candidates.** -/
theorem eq_select_iff : sorted = select candidates scope available exclude ↔
    StableSort (candidates.filter (Eligible scope available exclude ·)) sorted := by
  have hselect : StableSort (candidates.filter (Eligible scope available exclude ·))
      (select candidates scope available exclude) := by
    rw [select, filter_wanted]
    exact stableSort_mergeSort _
  constructor
  · rintro rfl
    exact hselect
  · exact fun h => h.unique hselect

theorem select_stableSort (candidates : List Candidate) :
    StableSort (candidates.filter (Eligible scope available exclude ·))
      (select candidates scope available exclude) :=
  eq_select_iff.mp rfl

/-! ### Two selections -/

/-- In order, only the candidates of one package can be told apart by their places. -/
theorem Ordered.sameUpToTies (hcs : Ordered cs) (hcs' : Ordered cs') (h : cs.Perm cs') :
    SameUpToTies cs cs' := by
  have hpairs : ∀ l, Ordered l → (l.map Candidate.id).Pairwise fun p q : PackageId =>
      p.name < q.name ∨ p.name = q.name ∧ p.arch ≤ q.arch :=
    fun _ hl => List.pairwise_map.mpr hl
  refine ⟨?_, fun p => h.filter _⟩
  refine List.Perm.eq_of_pairwise ?_ (hpairs cs hcs) (hpairs cs' hcs') (h.map _)
  intro p q hp hq hpq hqp
  obtain ⟨a, -, rfl⟩ := List.mem_map.mp hp
  obtain ⟨b, -, rfl⟩ := List.mem_map.mp hq
  exact id_eq_of_inOrder (inOrder_iff.mpr hpq) (inOrder_iff.mpr hqp)

theorem select_select (candidates : List Candidate) :
    select (select candidates scope available exclude) scope available exclude =
      select candidates scope available exclude := by
  refine (eq_select_iff.mpr ?_).symm
  rw [List.filter_eq_self.mpr fun c hc => ?_]
  · exact (select_ordered candidates).stableSort
  · exact decide_eq_true (wanted_iff_eligible.mp (mem_select.mp hc).2)

theorem select_congr (hrepos : ∀ repo, repo ∈ available' ↔ repo ∈ available)
    (hpatterns : ∀ raw, (Glob.parse raw).isSome = true → (raw ∈ exclude' ↔ raw ∈ exclude)) :
    select candidates scope available' exclude' = select candidates scope available exclude := by
  have hsame : candidates.filter (Eligible scope available' exclude' ·) =
      candidates.filter (Eligible scope available exclude ·) :=
    List.filter_congr fun c _ => decide_eq_decide.mpr (eligible_congr hrepos hpatterns)
  refine eq_select_iff.mpr ?_
  rw [← hsame]
  exact select_stableSort candidates

theorem select_perm (h : candidates'.Perm candidates) :
    SameUpToTies (select candidates' scope available exclude)
      (select candidates scope available exclude) :=
  (select_ordered candidates').sameUpToTies (select_ordered candidates)
    (((select_stableSort candidates').perm.trans (h.filter _)).trans
      (select_stableSort candidates).perm.symm)

/-- **The selection is the stable sort of the eligible candidates**, by name and architecture. To
select from it again changes nothing; it depends on which repositories are usable and which patterns
exclude something, however often and in whatever order they are given; and the order in which
candidates are offered decides nothing but the order of those of one package. -/
theorem select_stable (scope : Scope) (available exclude : List String)
    (candidates : List Candidate) :
    (∀ sorted, sorted = select candidates scope available exclude ↔
      StableSort (candidates.filter (Eligible scope available exclude ·)) sorted) ∧
    select (select candidates scope available exclude) scope available exclude =
      select candidates scope available exclude ∧
    (∀ available' exclude', (∀ repo, repo ∈ available' ↔ repo ∈ available) →
      (∀ raw, (Glob.parse raw).isSome = true → (raw ∈ exclude' ↔ raw ∈ exclude)) →
        select candidates scope available' exclude' =
          select candidates scope available exclude) ∧
    ∀ candidates', candidates'.Perm candidates →
      SameUpToTies (select candidates' scope available exclude)
        (select candidates scope available exclude) :=
  ⟨fun _ => eq_select_iff, select_select candidates, fun _ _ => select_congr,
    fun _ => select_perm⟩

/-- A candidate that two repositories offer, and another one. -/
def offered : List Candidate :=
  [⟨"vim", "x86_64", none, "9.1-1", "updates", none, none, none⟩,
    ⟨"bash", "x86_64", none, "5.2-4", "updates", none, none, none⟩,
    ⟨"bash", "x86_64", none, "5.2-4", "extra", none, none, none⟩]

/-- An exclusion that is no pattern, a repository that is named twice, and another order. -/
theorem select_stable_offered : Glob.parse "[vim" = none ∧ offered.reverse.Perm offered ∧
    (select offered .all ["extra", "updates", "extra"] ["[vim", "zsh"]).length = 3 ∧
    select offered .all ["extra", "updates", "extra"] ["[vim", "zsh"] =
      select offered .all ["updates", "extra"] ["zsh"] ∧
    SameUpToTies (select offered.reverse .all ["updates", "extra"] ["zsh"])
      (select offered .all ["updates", "extra"] ["zsh"]) := by
  have hnone : Glob.parse "[vim" = none := by decide
  obtain ⟨-, -, hsame, hties⟩ := select_stable .all ["updates", "extra"] ["zsh"] offered
  have hselected := hsame ["extra", "updates", "extra"] ["[vim", "zsh"]
    (fun repo => by simp [or_comm]) (fun raw hraw => by
      rw [List.mem_cons, or_iff_right]
      rintro rfl
      rw [hnone] at hraw
      cases hraw)
  refine ⟨hnone, offered.reverse_perm, ?_, hselected, hties _ offered.reverse_perm⟩
  rw [hselected, (select_stableSort offered).perm.length_eq]
  decide +kernel

end Upkeep.Selection
