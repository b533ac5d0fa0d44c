import Upkeep.Proofs.History

/-!
# Programs that differ in some requests only

Two programs are alike apart from some requests if they make all other requests in the same order
and go on in the same way whatever is answered, to those and to these. Nothing is assumed about the
requests set apart: there may be more of them in one program than in the other, and their answers
may have nothing to do with each other.

So if the requests set apart are answered by something that cannot change the world which answers
the others, the two programs cannot be told apart in that world.

## Main definitions

* `World.beside`: a world in which some requests are answered by another one.
* `History.without`: a history without some requests.
* `Program.Alike`.

## Main results

* `Program.Alike.bind`, `Program.Alike.of_asks`: sequencing.
* `Program.Alike.run`: programs that are alike come to related values, leave the world in one state
  and make the same requests of it.
-/

namespace Upkeep

/-- A world in which the requests set apart are answered by another one. That one may look at the
world, but does not change it. -/
def World.beside {σ τ : Type} (apart : Request → Bool) (world : World σ) (other : σ → World τ) :
    World (σ × τ) := fun q s =>
  if apart q then ((other s.1 q s.2).1, (s.1, (other s.1 q s.2).2))
  else ((world q s.1).1, ((world q s.1).2, s.2))

/-- A history without the requests set apart. -/
def History.without (apart : Request → Bool) (h : History) : History :=
  h.filter fun e => !apart e.request

section

variable {σ τ : Type} {apart : Request → Bool} {q : Request}

theorem World.beside_of_apart (aside : apart q = true) (world : World σ) (other : σ → World τ)
    (s : σ) (t : τ) :
    world.beside apart other q (s, t) = ((other s q t).1, (s, (other s q t).2)) :=
  if_pos aside

theorem World.beside_of_shared (shared : apart q = false) (world : World σ) (other : σ → World τ)
    (s : σ) (t : τ) :
    world.beside apart other q (s, t) = ((world q s).1, ((world q s).2, t)) :=
  if_neg (by simp [shared])

theorem History.without_cons_of_apart (aside : apart q = true) (answer : Answer q.Reply)
    (h : History) : without apart (⟨q, answer⟩ :: h) = without apart h := by
  simp [without, aside]

theorem History.without_cons_of_shared (shared : apart q = false) (answer : Answer q.Reply)
    (h : History) : without apart (⟨q, answer⟩ :: h) = ⟨q, answer⟩ :: without apart h := by
  simp [without, shared]

end

namespace Program

variable {α β γ δ σ τ τ' : Type} {apart : Request → Bool} {kind : Request → Prop}

/-- Two programs that are the same up to requests set apart, and come to related values. -/
inductive Alike (apart : Request → Bool) (R : α → β → Prop) : Program α → Program β → Prop
  /-- Both are done. -/
  | done {a : α} {b : β} (related : R a b) : Alike apart R (.done a) (.done b)
  /-- Both make the same request. -/
  | both {q : Request} {next : Answer q.Reply → Program α} {next' : Answer q.Reply → Program β}
      (shared : apart q = false) (rest : ∀ answer, Alike apart R (next answer) (next' answer)) :
      Alike apart R (.ask q next) (.ask q next')
  /-- The first one makes a request that is set apart. -/
  | first {q : Request} {next : Answer q.Reply → Program α} {p' : Program β}
      (aside : apart q = true) (rest : ∀ answer, Alike apart R (next answer) p') :
      Alike apart R (.ask q next) p'
  /-- The second one makes a request that is set apart. -/
  | second {q : Request} {p : Program α} {next' : Answer q.Reply → Program β}
      (aside : apart q = true) (rest : ∀ answer, Alike apart R p (next' answer)) :
      Alike apart R p (.ask q next')

/-- A program makes only requests of a kind if only such are in its histories. -/
theorem asks_of_leads {p : Program α} (world : World σ) (s : σ)
    (hp : ∀ h a, p.Leads h a → ∀ e ∈ h, kind e.request) : p.Asks kind := by
  induction p with
  | done a => exact trivial
  | ask q next ih =>
    refine ⟨hp _ _ (leads_history world (.ask q next) s) _ List.mem_cons_self, fun answer => ?_⟩
    exact ih answer fun h a hl e he =>
      hp (⟨q, answer⟩ :: h) a ⟨answer, h, rfl, hl⟩ e (List.mem_cons_of_mem _ he)

section

variable {R : α → β → Prop} {p : Program α} {p' : Program β}

/-- A program that makes no request set apart is like itself. -/
theorem Alike.refl (hp : p.Asks fun q => apart q = false) : Alike apart Eq p p := by
  induction p with
  | done a => exact .done rfl
  | ask q next ih => exact .both hp.1 fun answer => ih answer (hp.2 answer)

/-- Two programs that make only requests set apart are alike. -/
theorem Alike.of_asks (hp : p.Asks fun q => apart q = true)
    (hp' : p'.Asks fun q => apart q = true) : Alike apart (fun _ _ => True) p p' := by
  induction p with
  | done a =>
    induction p' with
    | done b => exact .done trivial
    | ask q next ih => exact .second hp'.1 fun answer => ih answer (hp'.2 answer)
  | ask q next ih => exact .first hp.1 fun answer => ih answer (hp.2 answer)

/-- **One program after the other**: they are alike if each is like its counterpart. -/
theorem Alike.bind {S : γ → δ → Prop} {f : α → Program γ} {f' : β → Program δ}
    (hp : Alike apart R p p') (hf : ∀ a b, R a b → Alike apart S (f a) (f' b)) :
    Alike apart S (p.bind f) (p'.bind f') := by
  induction hp with
  | done related => exact hf _ _ related
  | both shared _ ih => exact .both shared ih
  | first aside _ ih => exact .first aside ih
  | second aside _ ih => exact .second aside ih

/-- **Programs that are alike** cannot be told apart in a world that does not see the requests set
apart: they come to related values, leave the world in the same state, and make the same requests
of it with the same answers. -/
theorem Alike.run (hp : Alike apart R p p') (world : World σ) (other : σ → World τ)
    (other' : σ → World τ') (s : σ) (t : τ) (t' : τ') :
    R (p.run (world.beside apart other) (s, t)).1 (p'.run (world.beside apart other') (s, t')).1 ∧
      (p'.run (world.beside apart other') (s, t')).2.1 =
        (p.run (world.beside apart other) (s, t)).2.1 ∧
      (p'.history (world.beside apart other') (s, t')).without apart =
        (p.history (world.beside apart other) (s, t)).without apart := by
  induction hp generalizing s t t' with
  | done related => exact ⟨related, rfl, rfl⟩
  | both shared _ ih =>
    simp only [Program.run, history, World.beside_of_shared shared,
      History.without_cons_of_shared shared]
    obtain ⟨hrelated, hstate, hhistory⟩ := ih _ (world _ s).2 t t'
    exact ⟨hrelated, hstate, congrArg _ hhistory⟩
  | first aside _ ih =>
    simp only [Program.run, history, World.beside_of_apart aside,
      History.without_cons_of_apart aside]
    exact ih _ s _ t'
  | second aside _ ih =>
    simp only [Program.run, history, World.beside_of_apart aside,
      History.without_cons_of_apart aside]
    exact ih _ s t _

end

end Program

end Upkeep
