import Upkeep.Proofs.History
import Upkeep.Upgrades

/-!
# What a selection holds

Membership and order of the selected candidates. A candidate is in the selection if and only if it
was offered and is wanted; the sort neither adds nor removes anything. The order is that of name
and architecture, in which candidates of one package are equal: it is a total preorder and not an
order, and nothing here says that a package occurs once.

## Main definitions

* `Selection.Ordered`.

## Main results

* `Selection.mem_select`: the wanted candidates, and no others.
* `Selection.select_ordered`: by name and architecture.
* `Selection.pair_sublist_select`: candidates of one package stay in the order they came.
* `Selection.select_eq_self`: candidates that are wanted and in order are selected as they are.
* `Upgrades.leads_list`: what a query comes to is a selection of what was offered.
-/

namespace Upkeep.Selection

variable {scope : Scope} {available exclude : List String} {c : Candidate}
  {candidates : List Candidate}

/-! ### Order -/

/-- By name, and by architecture for equal names. -/
def Ordered (cs : List Candidate) : Prop :=
  cs.Pairwise fun a b => a.name < b.name ∨ a.name = b.name ∧ a.arch ≤ b.arch

theorem ordered_nil : Ordered [] := List.Pairwise.nil

theorem inOrder_iff {a b : Candidate} :
    inOrder a b = true ↔ a.name < b.name ∨ a.name = b.name ∧ a.arch ≤ b.arch := by
  simp only [inOrder, Bool.or_eq_true, Bool.and_eq_true, decide_eq_true_eq, beq_iff_eq,
    Bool.not_eq_true', decide_eq_false_iff_not, String.not_lt]

theorem inOrder_trans (a b c : Candidate) (hab : inOrder a b = true) (hbc : inOrder b c = true) :
    inOrder a c = true := by
  rw [inOrder_iff] at hab hbc ⊢
  rcases hab with hab | ⟨hab, hab'⟩
  · rcases hbc with hbc | ⟨hbc, -⟩
    · exact Or.inl (String.lt_trans hab hbc)
    · exact Or.inl (hbc ▸ hab)
  · rcases hbc with hbc | ⟨hbc, hbc'⟩
    · exact Or.inl (hab ▸ hbc)
    · exact Or.inr ⟨hab.trans hbc, String.le_trans hab' hbc'⟩

theorem inOrder_total (a b : Candidate) : (inOrder a b || inOrder b a) = true := by
  rw [Bool.or_eq_true, inOrder_iff, inOrder_iff]
  by_cases hlt : a.name < b.name
  · exact Or.inl (Or.inl hlt)
  · by_cases hgt : b.name < a.name
    · exact Or.inr (Or.inl hgt)
    · have hname : a.name = b.name :=
        String.le_antisymm (String.not_lt.mp hgt) (String.not_lt.mp hlt)
      rcases String.le_total a.arch b.arch with harch | harch
      · exact Or.inl (Or.inr ⟨hname, harch⟩)
      · exact Or.inr (Or.inr ⟨hname.symm, harch⟩)

theorem select_ordered (candidates : List Candidate) :
    Ordered (select candidates scope available exclude) :=
  (List.pairwise_mergeSort inOrder_trans inOrder_total _).imp inOrder_iff.mp

/-- Candidates of one name and architecture stay in the order in which they were offered. -/
theorem pair_sublist_select {c' : Candidate} (hoffered : [c, c'].Sublist candidates)
    (hc : wanted scope available exclude c = true)
    (hc' : wanted scope available exclude c' = true) (hname : c.name = c'.name)
    (harch : c.arch = c'.arch) : [c, c'].Sublist (select candidates scope available exclude) := by
  have hle : inOrder c c' = true := inOrder_iff.mpr (Or.inr ⟨hname, harch ▸ String.le_refl _⟩)
  have hfiltered := hoffered.filter (wanted scope available exclude)
  rw [List.filter_cons_of_pos hc, List.filter_cons_of_pos hc', List.filter_nil] at hfiltered
  exact List.pair_sublist_mergeSort inOrder_trans inOrder_total hle hfiltered

/-- Candidates that are all wanted and in order are selected as they are. -/
theorem select_eq_self
    (hwanted : ∀ c ∈ candidates, wanted scope available exclude c = true)
    (hordered : candidates.Pairwise fun a b => inOrder a b = true) :
    select candidates scope available exclude = candidates := by
  rw [select, List.filter_eq_self.mpr hwanted]
  exact List.mergeSort_of_pairwise hordered

/-! ### Members -/

theorem mem_select :
    c ∈ select candidates scope available exclude ↔
      c ∈ candidates ∧ wanted scope available exclude c = true := by
  rw [select, List.mem_mergeSort, List.mem_filter]

/-- What it takes to be wanted. -/
theorem wanted_iff :
    wanted scope available exclude c = true ↔
      c.repo ∈ available ∧ (∀ p ∈ patterns exclude, Glob.matchesText p c.name = false) ∧
        scope.matches? c = true := by
  simp [wanted, and_assoc]

end Upkeep.Selection

namespace Upkeep.Upgrades

/-- A query that goes well comes to a selection of what was offered. -/
theorem leads_list {scope : Scope} {exclude available : List String} {limit : Span}
    {h : History} {cs : List Candidate}
    (hl : (list scope exclude available limit).Leads h (.ok cs)) :
    ∃ (answer : Answer (Timed (Except String (List Candidate)))) (offered : List Candidate),
      h = [⟨.query available limit, answer⟩] ∧ answer.value = .inTime (.ok offered) ∧
        cs = Selection.select offered scope available exclude := by
  obtain ⟨answer, rest, rfl, rfl, heq⟩ := hl
  rcases hanswer : answer.value with (reason | offered) | _
  · rw [hanswer] at heq
    cases heq
  · rw [hanswer] at heq
    cases heq
    exact ⟨answer, offered, rfl, hanswer, rfl⟩
  · rw [hanswer] at heq
    cases heq

end Upkeep.Upgrades
