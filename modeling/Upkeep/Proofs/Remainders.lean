import Upkeep.Proofs.History

/-!
# What is left of a program

A program that has made some requests and got answers is another program: what is left of it. So a
statement about a run from some point on is a statement about what is left there, and the histories
of a program that start in one way are those of what is left, put behind that start.

A guarded stage that passed leaves what follows it; one that cancellation keeps from starting leaves
what follows an interruption, and has asked for nothing.

## Main definitions

* `Program.After`: what is left of a program after a history.

## Main results

* `Program.After.leads_iff`: the histories of what is left.
* `Program.After.bind`, `Program.Leads.after_bind`: what is left of one program after the other.
* `Ledger.after_call`, `Ledger.after_guard`: what is left after a request and after a guarded stage.
-/

namespace Upkeep

namespace Program

variable {α β : Type}

/-- What is left of a program once it has made the requests of a history and got its answers. -/
def After : Program α → History → Program α → Prop
  | p, [], p' => p' = p
  | .done _, _ :: _, _ => False
  | .ask q next, e :: h, p' => ∃ answer, e = ⟨q, answer⟩ ∧ (next answer).After h p'

variable {p p' p'' : Program α} {h h' : History}

theorem After.refl (p : Program α) : p.After [] p := by
  cases p <;> rfl

theorem after_nil : p.After [] p' ↔ p' = p := by
  cases p <;> exact Iff.rfl

theorem After.trans (hp : p.After h p') (hp' : p'.After h' p'') : p.After (h ++ h') p'' := by
  induction p generalizing h with
  | done a =>
    cases h with
    | nil =>
      obtain rfl := hp
      exact hp'
    | cons e h => exact hp.elim
  | ask q next ih =>
    cases h with
    | nil =>
      obtain rfl := hp
      exact hp'
    | cons e h =>
      obtain ⟨answer, rfl, hrest⟩ := hp
      exact ⟨answer, rfl, ih answer hrest⟩

/-- **The histories of a program that start in one way** are those of what is left. -/
theorem After.leads_iff (hp : p.After h p') {a : α} : p.Leads (h ++ h') a ↔ p'.Leads h' a := by
  induction p generalizing h with
  | done b =>
    cases h with
    | nil =>
      obtain rfl := hp
      exact Iff.rfl
    | cons e h => exact hp.elim
  | ask q next ih =>
    cases h with
    | nil =>
      obtain rfl := hp
      exact Iff.rfl
    | cons e h =>
      obtain ⟨answer, rfl, hrest⟩ := hp
      rw [← ih answer hrest]
      constructor
      · rintro ⟨answer', rest, heq, hleads⟩
        cases heq
        exact hleads
      · intro hleads
        exact ⟨answer, h ++ h', rfl, hleads⟩

theorem After.bind (hp : p.After h p') (f : α → Program β) :
    (p.bind f).After h (p'.bind f) := by
  induction p generalizing h with
  | done a =>
    cases h with
    | nil =>
      obtain rfl := hp
      exact .refl _
    | cons e h => exact hp.elim
  | ask q next ih =>
    cases h with
    | nil =>
      obtain rfl := hp
      exact .refl _
    | cons e h =>
      obtain ⟨answer, rfl, hrest⟩ := hp
      exact ⟨answer, rfl, ih answer hrest⟩

/-- A program that has come to a value leaves what is done with it. -/
theorem Leads.after_bind {a : α} (hp : p.Leads h a) (f : α → Program β) :
    (p.bind f).After h (f a) := by
  induction p generalizing h with
  | done b =>
    obtain ⟨rfl, rfl⟩ := hp
    exact .refl _
  | ask q next ih =>
    obtain ⟨answer, rest, rfl, hrest⟩ := hp
    exact ⟨answer, rfl, ih answer hrest⟩

/-! ### Guarded programs -/

theorem leads_interruptible_of_undisturbed {a : α} {c : Bool} (hp : p.Leads h a)
    (hh : h.Undisturbed c) : (p.interruptible c).Leads h ⟨some a, c || h.cancelled⟩ := by
  induction p generalizing c h with
  | done b =>
    obtain ⟨rfl, rfl⟩ := hp
    exact ⟨rfl, by simp⟩
  | ask q next ih =>
    obtain ⟨answer, rest, rfl, hrest⟩ := hp
    obtain ⟨hd, hlater⟩ := hh
    refine ⟨answer, rest, rfl, ?_⟩
    dsimp only
    rw [if_neg (by simpa using hd), History.cancelled_cons, ← Bool.or_assoc]
    exact ih answer hrest hlater

theorem Passed.leads_guarded {a : α} {c : Bool} (hp : p.Passed c h a) :
    (p.guarded c).Leads h ⟨some a, h.cancelled⟩ := by
  obtain ⟨rfl, hleads, hundisturbed⟩ := hp
  rw [guarded, if_neg Bool.false_ne_true]
  exact leads_interruptible_of_undisturbed hleads hundisturbed

end Program

/-! ### Ledgers -/

namespace Ledger

variable {α β : Type} {l : Ledger}

/-- A request leaves what is done with its answer. -/
theorem after_call {q : Request} {next : Ledger → q.Reply → Program β} {answer : Answer q.Reply}
    {p : Program β} (hnext : next (l.note [⟨q, answer⟩]) answer.value = p) :
    (l.call q next).After [⟨q, answer⟩] p := by
  refine ⟨answer, rfl, Program.after_nil.mpr ?_⟩
  rw [← hnext]
  simp [note]

/-- A guarded stage that passed leaves what follows it. -/
theorem after_guard {stage : Program α} {next : Ledger → Option α → Program β} {h : History}
    {a : α} {p : Program β} (passed : stage.Passed l.cancelled h a)
    (hnext : next (l.note h) (some a) = p) : (l.guard stage next).After h p := by
  have hafter := passed.leads_guarded.after_bind fun g =>
    next { l with cancelled := g.cancelled } g.value?
  rw [← hnext]
  rwa [note, passed.1, Bool.false_or]

/-- A guarded stage that cancellation keeps from starting asks for nothing. -/
theorem guard_of_cancelled {stage : Program α} (cancelled : l.cancelled = true)
    (next : Ledger → Option α → Program β) : l.guard stage next = next l none := by
  rw [guard, Program.guarded, if_pos cancelled, Program.done_bind, ← cancelled]

end Ledger

end Upkeep
