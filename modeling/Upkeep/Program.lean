import Upkeep.Request

/-!
# Programs of requests

A program is what a run does as seen from outside: it is done, or it asks for something and goes
on with the answer. A world answers: it is a state and a rule that gives each request an answer
and a new state.

A stage is guarded against cancellation. It is interrupted when cancellation was requested before
it starts, and when it has to wait for an answer and cancellation has been requested by then. An
answer that comes without waiting never interrupts, whatever it says about cancellation; the
request for cancellation stays, though, and takes effect at the next wait or the next guarded
stage.

## Main definitions

* `Program`, `Program.bind`, `Program.run`.
* `Program.guarded`, `Program.noted`.

## Main results

* `Program.bind_assoc`, `Program.bind_done`: the laws of sequencing.
-/

namespace Upkeep

/-- What is done with answers to requests. -/
inductive Program (α : Type) where
  /-- Done. -/
  | done (value : α)
  /-- A request, and how to go on with the answer. -/
  | ask (request : Request) (next : Answer request.Reply → Program α)

/-- How a world answers from its state. -/
abbrev World (σ : Type) := (request : Request) → σ → Answer request.Reply × σ

namespace Program

/-- One program after the other. -/
def bind {α β : Type} : Program α → (α → Program β) → Program β
  | .done a, f => f a
  | .ask q next, f => .ask q fun a => (next a).bind f

instance : Monad Program where
  pure := .done
  bind := bind

@[simp] theorem done_bind {α β : Type} (a : α) (f : α → Program β) :
    (Program.done a).bind f = f a := rfl

@[simp] theorem ask_bind {α β : Type} (q : Request) (next : Answer q.Reply → Program α)
    (f : α → Program β) : (Program.ask q next).bind f = .ask q fun a => (next a).bind f := rfl

@[simp] theorem bind_done {α : Type} (p : Program α) : p.bind .done = p := by
  induction p with
  | done a => rfl
  | ask q next ih => simp [ih]

theorem bind_assoc {α β γ : Type} (p : Program α) (f : α → Program β) (g : β → Program γ) :
    (p.bind f).bind g = p.bind fun a => (f a).bind g := by
  induction p with
  | done a => rfl
  | ask q next ih => simp [ih]

/-- A single request. -/
def call (q : Request) : Program q.Reply := .ask q fun a => .done a.value

/-- What a world makes of a program. -/
def run {σ α : Type} (world : World σ) : Program α → σ → α × σ
  | .done a, s => (a, s)
  | .ask q next, s => run world (next (world q s).1) (world q s).2

/-- A program to its end; also answers whether cancellation was requested before it or on the
way. -/
def noted {α : Type} (cancelled : Bool) : Program α → Program (α × Bool)
  | .done a => .done (a, cancelled)
  | .ask q next => .ask q fun a => noted (cancelled || a.cancelled) (next a)

/-- What a guarded program comes to: its value, or nothing when it was interrupted; and whether
cancellation has been requested. -/
structure Guarded (α : Type) where
  /-- The value, unless interrupted. -/
  value? : Option α
  /-- Whether cancellation has been requested. -/
  cancelled : Bool

/-- A program that cancellation interrupts while it waits. -/
def interruptible {α : Type} (cancelled : Bool) : Program α → Program (Guarded α)
  | .done a => .done ⟨some a, cancelled⟩
  | .ask q next => .ask q fun a =>
    if a.waited && (cancelled || a.cancelled) then .done ⟨none, true⟩
    else interruptible (cancelled || a.cancelled) (next a)

/-- A program that cancellation interrupts before it starts or while it waits. -/
def guarded {α : Type} (cancelled : Bool) (p : Program α) : Program (Guarded α) :=
  if cancelled then .done ⟨none, true⟩ else interruptible cancelled p

end Program

end Upkeep
