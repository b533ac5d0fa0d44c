import Upkeep.Run.Ledger

/-!
# Histories

A program runs against a world it knows nothing about. So what is said of it is said of its
histories: which requests it made, in order, and which answers it got. A history fixes the value
that the program comes to, and every answer that a request admits occurs in some history; a
statement about all histories is therefore a statement about every behaviour of the package
manager, the host, the emitters, the clock, the scheduler and whoever cancels.

## Interrupted programs

A guarded program that is interrupted has made only the first of its requests. `Begins` says that
much and no more; `Broken` adds what interrupted it.

## Main definitions

* `Event`, `History`, `History.Each`.
* `World.after`, `World.Gives`: a world along a history.
* `Program.Leads`, `Program.Begins`: a program's histories, and the beginnings of them.
* `Program.Asks`: every request a program can make is of a given kind.
* `Program.Passed`, `Program.Broken`: what a guarded stage comes to.
* `Ledger.note`: a ledger after a history.

## Main results

* `Program.leads_history`, `Program.gives_history`, `Program.run_eq_after`: what a world makes of a
  program is one of its histories, with the world's answers, and fixes the world's state.
* `Program.leads_bind`: the histories of one program after another.
* `Ledger.leads_call`, `Ledger.leads_guard`: the histories of a request and of a guarded stage.
-/

namespace Upkeep

/-- A request and the answer to it. -/
structure Event where
  /-- The request. -/
  request : Request
  /-- The answer. -/
  answer : Answer request.Reply

/-- Requests and their answers, in order. -/
abbrev History := List Event

namespace History

/-- Whether an answer said that cancellation has been requested. -/
def cancelled (h : History) : Bool := h.any fun e => e.answer.cancelled

@[simp] theorem cancelled_nil : cancelled [] = false := rfl

@[simp] theorem cancelled_cons (e : Event) (h : History) :
    cancelled (e :: h) = (e.answer.cancelled || cancelled h) := rfl

@[simp] theorem cancelled_append (h₁ h₂ : History) :
    cancelled (h₁ ++ h₂) = (cancelled h₁ || cancelled h₂) := by
  simp [cancelled]

/-- No answer was waited for while cancellation had been requested, before or with it. -/
def Undisturbed (cancelled : Bool) : History → Prop
  | [] => True
  | e :: h => (e.answer.waited && (cancelled || e.answer.cancelled)) = false ∧
      Undisturbed (cancelled || e.answer.cancelled) h

theorem undisturbed_append (c : Bool) (h₁ h₂ : History) :
    Undisturbed c (h₁ ++ h₂) ↔ h₁.Undisturbed c ∧ h₂.Undisturbed (c || h₁.cancelled) := by
  induction h₁ generalizing c with
  | nil => simp [Undisturbed]
  | cons e h₁ ih => simp [Undisturbed, ih, and_assoc, Bool.or_assoc]

/-- Every event is as it should be, judged by it and by what came before it. -/
def Each (proper : History → Event → Prop) (h : History) : Prop :=
  ∀ before e after, h = before ++ e :: after → proper before e

/-- An event of two histories, one after the other, is in the first or in the second. -/
theorem append_cons_eq_append {before after h₁ h₂ : History} {e : Event}
    (heq : before ++ e :: after = h₁ ++ h₂) :
    (∃ more, h₁ = before ++ e :: more ∧ after = more ++ h₂) ∨
      ∃ between, before = h₁ ++ between ∧ h₂ = between ++ e :: after := by
  rcases List.append_eq_append_iff.mp heq with ⟨more, rfl, hmore⟩ | ⟨between, rfl, hbetween⟩
  · cases more with
    | nil => exact Or.inr ⟨[], by simp, by simpa using hmore.symm⟩
    | cons e' more =>
      obtain ⟨rfl, rfl⟩ := List.cons_eq_cons.mp hmore
      exact Or.inl ⟨more, rfl, rfl⟩
  · exact Or.inr ⟨between, rfl, hbetween⟩

theorem each_append {proper : History → Event → Prop} {h₁ h₂ : History} (h₁_each : h₁.Each proper)
    (h₂_each : h₂.Each fun before e => proper (h₁ ++ before) e) : Each proper (h₁ ++ h₂) := by
  intro before e after heq
  rcases append_cons_eq_append heq.symm with ⟨more, rfl, -⟩ | ⟨between, rfl, rfl⟩
  · exact h₁_each before e more rfl
  · exact h₂_each between e after rfl

theorem each_of_forall {proper : History → Event → Prop} {h : History}
    (hh : ∀ e ∈ h, ∀ before, proper before e) : h.Each proper := by
  rintro before e after rfl
  exact hh e (by simp) before

theorem each_singleton {proper : History → Event → Prop} {e : Event} (he : proper [] e) :
    Each proper [e] := by
  intro before e' after heq
  cases before with
  | nil =>
    cases heq
    exact he
  | cons e'' before => simp at heq

end History

namespace World

variable {σ : Type}

/-- The state in which a world is once it has answered the requests of a history. -/
def after (world : World σ) (h : History) (s : σ) : σ :=
  h.foldl (fun s e => (world e.request s).2) s

/-- The answers of a history are those of a world. -/
def Gives (world : World σ) : History → σ → Prop
  | [], _ => True
  | e :: h, s => e.answer = (world e.request s).1 ∧ Gives world h (world e.request s).2

theorem after_append (world : World σ) (h h' : History) (s : σ) :
    world.after (h ++ h') s = world.after h' (world.after h s) :=
  List.foldl_append

theorem gives_append {world : World σ} {h h' : History} {s : σ} :
    world.Gives (h ++ h') s ↔ world.Gives h s ∧ world.Gives h' (world.after h s) := by
  induction h generalizing s with
  | nil => simp [Gives, after]
  | cons e h ih =>
    show _ ∧ world.Gives (h ++ h') _ ↔ (_ ∧ world.Gives h _) ∧ world.Gives h' (world.after h _)
    rw [ih, and_assoc]

end World

/-- Whether a piece of work is a fetch. -/
def Job.isFetch : Job → Bool
  | .fetch .. => true
  | _ => false

/-! ### Every request can be answered -/

theorem Job.nonempty_result (job : Job) : Nonempty job.Result := by
  cases job with
  | fetch c dir limit => exact ⟨.expired⟩
  | rest millis => exact ⟨()⟩
  | digest path algorithm => exact ⟨.error ""⟩
  | discard path => exact ⟨()⟩

theorem Landing.nonempty (first : Nat × Job) (rest : List (Nat × Job)) :
    Nonempty (Landing first rest) := by
  cases rest with
  | nil => exact first.2.nonempty_result
  | cons next rest =>
    obtain ⟨r⟩ := first.2.nonempty_result
    exact ⟨.inl r⟩

theorem Request.nonempty_reply (q : Request) : Nonempty q.Reply := by
  cases q with
  | now => exact ⟨⟨0, 0⟩⟩
  | acquireLock => exact ⟨.ok ()⟩
  | releaseLock => exact ⟨()⟩
  | readMarker => exact ⟨none⟩
  | writeMarker _ => exact ⟨none⟩
  | sleepRandomly _ => exact ⟨()⟩
  | lookForNetwork => exact ⟨true⟩
  | networkOverdue _ => exact ⟨true⟩
  | sleepBetweenLooks => exact ⟨()⟩
  | listRepositories => exact ⟨.ok []⟩
  | refresh _ _ => exact ⟨.expired⟩
  | query _ _ => exact ⟨.expired⟩
  | begin _ job => exact ⟨none⟩
  | await first rest => exact Landing.nonempty first rest
  | apply _ _ => exact ⟨.expired⟩
  | rebootReason _ => exact ⟨.ok none⟩
  | reboot _ => exact ⟨.ok ()⟩
  | emit _ _ _ _ => exact ⟨.expired⟩
  | clear _ => exact ⟨.ok ()⟩

namespace Program

variable {α β : Type}

/-! ### Histories of a program -/

/-- The program makes the requests of a history, gets its answers, and comes to a value. -/
def Leads : Program α → History → α → Prop
  | .done a, h, b => h = [] ∧ b = a
  | .ask q next, h, b => ∃ answer rest, h = ⟨q, answer⟩ :: rest ∧ (next answer).Leads rest b

@[simp] theorem leads_done {a b : α} {h : History} :
    (Program.done a).Leads h b ↔ h = [] ∧ b = a := Iff.rfl

@[simp] theorem leads_ask {q : Request} {next : Answer q.Reply → Program α} {h : History} {b : α} :
    (Program.ask q next).Leads h b ↔
      ∃ answer rest, h = ⟨q, answer⟩ :: rest ∧ (next answer).Leads rest b := Iff.rfl

/-- The program makes the requests of a history and gets its answers; it may have more to do. -/
def Begins : Program α → History → Prop
  | _, [] => True
  | .done _, _ :: _ => False
  | .ask q next, e :: h => ∃ answer, e = ⟨q, answer⟩ ∧ (next answer).Begins h

theorem Leads.begins {p : Program α} {h : History} {a : α} (hp : p.Leads h a) : p.Begins h := by
  induction p generalizing h with
  | done b =>
    obtain ⟨rfl, -⟩ := hp
    exact trivial
  | ask q next ih =>
    obtain ⟨answer, rest, rfl, hrest⟩ := hp
    exact ⟨answer, rfl, ih answer hrest⟩

/-- Every program can be brought to an end. -/
theorem exists_leads (p : Program α) : ∃ h a, p.Leads h a := by
  induction p with
  | done a => exact ⟨[], a, rfl, rfl⟩
  | ask q next ih =>
    obtain ⟨reply⟩ := q.nonempty_reply
    obtain ⟨h, a, hl⟩ := ih ⟨reply, false, false⟩
    exact ⟨_, a, _, h, rfl, hl⟩

/-- Whatever a program has begun it can end. -/
theorem Begins.exists_leads {p : Program α} {h : History} (hb : p.Begins h) :
    ∃ h' a, p.Leads (h ++ h') a := by
  induction h generalizing p with
  | nil => exact p.exists_leads
  | cons e h ih =>
    cases p with
    | done a => exact hb.elim
    | ask q next =>
      obtain ⟨answer, rfl, hrest⟩ := hb
      obtain ⟨h', a, hl⟩ := ih hrest
      exact ⟨h', a, answer, h ++ h', rfl, hl⟩

/-- A history fixes what the program comes to. -/
theorem Leads.unique {p : Program α} {h : History} {a b : α} (ha : p.Leads h a)
    (hb : p.Leads h b) : a = b := by
  induction p generalizing h with
  | done c => rw [ha.2, hb.2]
  | ask q next ih =>
    obtain ⟨answer, rest, rfl, hrest⟩ := ha
    obtain ⟨answer', rest', heq, hrest'⟩ := hb
    cases heq
    exact ih answer hrest hrest'

/-- One program after the other: its histories are those of the first, each followed by one of
what the first comes to. -/
theorem leads_bind {p : Program α} {f : α → Program β} {h : History} {b : β} :
    (p.bind f).Leads h b ↔ ∃ h₁ a h₂, h = h₁ ++ h₂ ∧ p.Leads h₁ a ∧ (f a).Leads h₂ b := by
  induction p generalizing h with
  | done a =>
    constructor
    · intro hf
      exact ⟨[], a, h, rfl, ⟨rfl, rfl⟩, hf⟩
    · rintro ⟨h₁, a', h₂, rfl, ⟨rfl, rfl⟩, hf⟩
      exact hf
  | ask q next ih =>
    constructor
    · rintro ⟨answer, rest, rfl, hrest⟩
      obtain ⟨h₁, a, h₂, rfl, hp, hf⟩ := (ih answer).mp hrest
      exact ⟨⟨q, answer⟩ :: h₁, a, h₂, rfl, ⟨answer, h₁, rfl, hp⟩, hf⟩
    · rintro ⟨h₁, a, h₂, rfl, ⟨answer, rest, rfl, hp⟩, hf⟩
      exact ⟨answer, rest ++ h₂, rfl, (ih answer).mpr ⟨rest, a, h₂, rfl, hp, hf⟩⟩

/-- The history that a world makes of a program. -/
def history {σ : Type} (world : World σ) : Program α → σ → History
  | .done _, _ => []
  | .ask q next, s => ⟨q, (world q s).1⟩ :: history world (next (world q s).1) (world q s).2

/-- What a world makes of a program is one of its histories. -/
theorem leads_history {σ : Type} (world : World σ) (p : Program α) (s : σ) :
    p.Leads (p.history world s) (p.run world s).1 := by
  induction p generalizing s with
  | done a => exact ⟨rfl, rfl⟩
  | ask q next ih => exact ⟨(world q s).1, _, rfl, ih (world q s).1 (world q s).2⟩

/-- The answers in such a history are the world's, in some state. -/
theorem answer_of_mem_history {σ : Type} {world : World σ} {p : Program α} {s : σ} {e : Event}
    (he : e ∈ p.history world s) : ∃ s', e.answer = (world e.request s').1 := by
  induction p generalizing s with
  | done a => cases he
  | ask q next ih =>
    rcases List.mem_cons.mp he with rfl | he
    · exact ⟨s, rfl⟩
    · exact ih (world q s).1 he

theorem gives_history {σ : Type} (world : World σ) (p : Program α) (s : σ) :
    world.Gives (p.history world s) s := by
  induction p generalizing s with
  | done a => trivial
  | ask q next ih => exact ⟨rfl, ih (world q s).1 (world q s).2⟩

/-- A history fixes the state in which a world is at its end. -/
theorem run_eq_after {σ : Type} (world : World σ) (p : Program α) (s : σ) :
    (p.run world s).2 = world.after (p.history world s) s := by
  induction p generalizing s with
  | done a => rfl
  | ask q next ih => exact ih (world q s).1 (world q s).2

/-! ### Which requests a program makes -/

/-- Every request that the program can make is of a kind. -/
def Asks (kind : Request → Prop) : Program α → Prop
  | .done _ => True
  | .ask q next => kind q ∧ ∀ answer, (next answer).Asks kind

theorem Asks.bind {kind : Request → Prop} {p : Program α} {f : α → Program β}
    (hp : p.Asks kind) (hf : ∀ a, (f a).Asks kind) : (p.bind f).Asks kind := by
  induction p with
  | done a => exact hf a
  | ask q next ih => exact ⟨hp.1, fun answer => ih answer (hp.2 answer)⟩

theorem Begins.asks {kind : Request → Prop} {p : Program α} {h : History} (hb : p.Begins h)
    (hp : p.Asks kind) : ∀ e ∈ h, kind e.request := by
  induction p generalizing h with
  | done a =>
    cases h with
    | nil => simp
    | cons e h => exact hb.elim
  | ask q next ih =>
    cases h with
    | nil => simp
    | cons e h =>
      obtain ⟨answer, rfl, hrest⟩ := hb
      intro e' he'
      rcases List.mem_cons.mp he' with rfl | hmem
      · exact hp.1
      · exact ih answer hrest (hp.2 answer) e' hmem

/-- Where every request can be answered in a way, whatever came before, there is a history in which
every one is. -/
theorem Asks.exists_leads_each {kind : Request → Prop} {proper : History → Event → Prop}
    {p : Program α} (hp : p.Asks kind)
    (hproper : ∀ before q, kind q → ∃ answer, proper before ⟨q, answer⟩) :
    ∃ h a, p.Leads h a ∧ h.Each proper := by
  induction p generalizing proper with
  | done a => exact ⟨[], a, ⟨rfl, rfl⟩, History.each_of_forall (by simp)⟩
  | ask q next ih =>
    obtain ⟨answer, hanswer⟩ := hproper [] q hp.1
    obtain ⟨h, a, hl, heach⟩ := @ih answer (fun before e => proper (⟨q, answer⟩ :: before) e)
      (hp.2 answer) fun before => hproper (⟨q, answer⟩ :: before)
    have hfirst : History.Each proper [⟨q, answer⟩] := History.each_singleton hanswer
    exact ⟨⟨q, answer⟩ :: h, a, ⟨answer, h, rfl, hl⟩, History.each_append hfirst heach⟩

/-- So there is where what came before does not matter. -/
theorem Asks.exists_leads {kind : Request → Prop} {answered : Event → Prop} {p : Program α}
    (hp : p.Asks kind) (hkind : ∀ q, kind q → ∃ answer, answered ⟨q, answer⟩) :
    ∃ h a, p.Leads h a ∧ ∀ e ∈ h, answered e := by
  obtain ⟨h, a, hl, heach⟩ := hp.exists_leads_each fun _ : History => hkind
  refine ⟨h, a, hl, fun e he => ?_⟩
  obtain ⟨before, after, rfl⟩ := List.append_of_mem he
  exact heach before e after rfl

/-! ### Guarded programs -/

/-- A program that has not been interrupted. -/
def Passed (p : Program α) (cancelled : Bool) (h : History) (a : α) : Prop :=
  cancelled = false ∧ p.Leads h a ∧ h.Undisturbed false

/-- A program that has been interrupted: it was not started, since cancellation had been requested
before; or its last answer was waited for and cancellation had been requested by then. -/
def Broken (p : Program α) (cancelled : Bool) (h : History) : Prop :=
  (cancelled = true ∧ h = []) ∨
    cancelled = false ∧ p.Begins h ∧
      ∃ (start : History) (e : Event), h = start ++ [e] ∧ start.Undisturbed false ∧
        (e.answer.waited && (start.cancelled || e.answer.cancelled)) = true

theorem Broken.begins {p : Program α} {cancelled : Bool} {h : History}
    (hp : p.Broken cancelled h) : p.Begins h := by
  rcases hp with ⟨-, rfl⟩ | ⟨-, hb, -⟩
  · cases p <;> exact trivial
  · exact hb

/-- Only a request for cancellation interrupts a program. -/
theorem Broken.cancelled {p : Program α} {cancelled : Bool} {h : History}
    (hp : p.Broken cancelled h) : (cancelled || h.cancelled) = true := by
  rcases hp with ⟨rfl, -⟩ | ⟨-, -, start, e, rfl, -, hwaited⟩
  · rfl
  · have hcancelled := (Bool.and_eq_true_iff.mp hwaited).2
    simpa using Or.inr (by simpa using hcancelled)

/-- A program that has been interrupted after it started did not pass with the same history. -/
theorem Broken.not_passed {p : Program α} {c c' : Bool} {h : History} (hp : p.Broken c h)
    (hne : h ≠ []) (a : α) : ¬p.Passed c' h a := by
  rintro ⟨-, -, hundisturbed⟩
  rcases hp with ⟨-, rfl⟩ | ⟨-, -, start, e, rfl, -, hwaited⟩
  · exact hne rfl
  · have hlast := ((History.undisturbed_append _ _ _).mp hundisturbed).2.1
    rw [Bool.false_or, hwaited] at hlast
    cases hlast

theorem leads_interruptible {p : Program α} {c : Bool} {h : History} {g : Guarded α}
    (hp : (p.interruptible c).Leads h g) :
    (∃ a, p.Leads h a ∧ h.Undisturbed c ∧ g = ⟨some a, c || h.cancelled⟩) ∨
      p.Begins h ∧ g = ⟨none, true⟩ ∧ ∃ (start : History) (e : Event), h = start ++ [e] ∧
        start.Undisturbed c ∧
          (e.answer.waited && (c || start.cancelled || e.answer.cancelled)) = true := by
  induction p generalizing c h with
  | done a =>
    obtain ⟨rfl, rfl⟩ := hp
    exact Or.inl ⟨a, ⟨rfl, rfl⟩, trivial, by simp⟩
  | ask q next ih =>
    obtain ⟨answer, rest, rfl, hrest⟩ := hp
    dsimp only at hrest
    cases hd : answer.waited && (c || answer.cancelled) with
    | true =>
      rw [hd, if_pos rfl] at hrest
      obtain ⟨rfl, rfl⟩ := hrest
      exact Or.inr ⟨⟨answer, rfl, by cases next answer <;> exact trivial⟩, rfl, [], ⟨q, answer⟩,
        rfl, trivial, by simpa using hd⟩
    | false =>
      rw [hd, if_neg Bool.false_ne_true] at hrest
      rcases ih answer hrest with ⟨a, ha, hu, rfl⟩ | ⟨hb, rfl, start, e, rfl, hu, he⟩
      · exact Or.inl ⟨a, ⟨answer, rest, rfl, ha⟩, ⟨hd, hu⟩, by simp [Bool.or_assoc]⟩
      · exact Or.inr ⟨⟨answer, rfl, hb⟩, rfl, ⟨q, answer⟩ :: start, e, rfl, ⟨hd, hu⟩,
          by simpa [Bool.or_assoc] using he⟩

end Program

/-! ### Ledgers -/

namespace Ledger

variable {α β : Type}

/-- The ledger after a history: it only keeps in mind whether cancellation has been requested. -/
def note (l : Ledger) (h : History) : Ledger := { l with cancelled := l.cancelled || h.cancelled }

@[simp] theorem result_note (l : Ledger) (h : History) : (l.note h).result = l.result := rfl

@[simp] theorem history_note (l : Ledger) (h : History) : (l.note h).history = l.history := rfl

@[simp] theorem cancelled_note (l : Ledger) (h : History) :
    (l.note h).cancelled = (l.cancelled || h.cancelled) := rfl

@[simp] theorem result_visit (l : Ledger) (s : RunState) : (l.visit s).result = l.result := rfl

@[simp] theorem history_visit (l : Ledger) (s : RunState) :
    (l.visit s).history = l.history ++ [s] := rfl

@[simp] theorem cancelled_visit (l : Ledger) (s : RunState) :
    (l.visit s).cancelled = l.cancelled := rfl

@[simp] theorem result_update (l : Ledger) (f : RunResult → RunResult) :
    (l.update f).result = f l.result := rfl

@[simp] theorem history_update (l : Ledger) (f : RunResult → RunResult) :
    (l.update f).history = l.history := rfl

@[simp] theorem cancelled_update (l : Ledger) (f : RunResult → RunResult) :
    (l.update f).cancelled = l.cancelled := rfl

@[simp] theorem abort_eq (l : Ledger) (stage : Stage) (kind : FailureKind) (reason : String) :
    l.abort stage kind reason = l.update fun r => r.abort stage kind reason := rfl

@[simp] theorem stop_eq (l : Ledger) (stage : Stage) (e : RunError) :
    l.stop stage e = l.update fun r => r.abort stage e.kind e.message := rfl

@[simp] theorem warn_eq (l : Ledger) (stage : Stage) (kind : FailureKind) (reason : String) :
    l.warn stage kind reason = l.update fun r => r.warn stage kind reason := rfl

theorem leads_call {l : Ledger} {q : Request} {next : Ledger → q.Reply → Program β} {h : History}
    {b : β} :
    (l.call q next).Leads h b ↔ ∃ answer rest, h = ⟨q, answer⟩ :: rest ∧
      (next (l.note [⟨q, answer⟩]) answer.value).Leads rest b := by
  simp [call, note]

/-- A guarded stage is broken, or it passes with a value; what follows sees its whole history. -/
theorem leads_guard {l : Ledger} {stage : Program α} {next : Ledger → Option α → Program β}
    {h : History} {b : β} (hg : (l.guard stage next).Leads h b) :
    ∃ h₁ h₂, h = h₁ ++ h₂ ∧
      ((stage.Broken l.cancelled h₁ ∧ (next (l.note h₁) none).Leads h₂ b) ∨
        ∃ a, stage.Passed l.cancelled h₁ a ∧ (next (l.note h₁) (some a)).Leads h₂ b) := by
  obtain ⟨h₁, g, h₂, rfl, hs, hn⟩ := Program.leads_bind.mp hg
  refine ⟨h₁, h₂, rfl, ?_⟩
  cases hc : l.cancelled with
  | true =>
    rw [Program.guarded, hc, if_pos rfl] at hs
    obtain ⟨rfl, rfl⟩ := hs
    exact Or.inl ⟨Or.inl ⟨rfl, rfl⟩, by simpa [note, hc] using hn⟩
  | false =>
    rw [Program.guarded, hc, if_neg Bool.false_ne_true] at hs
    rcases Program.leads_interruptible hs with ⟨a, ha, hu, rfl⟩ | ⟨hb, rfl, start, e, rfl, hu, he⟩
    · exact Or.inr ⟨a, ⟨rfl, ha, hu⟩, by simpa [note, hc] using hn⟩
    · have he' : (e.answer.waited && (start.cancelled || e.answer.cancelled)) = true := by
        simpa using he
      have hcancelled : History.cancelled (start ++ [e]) = true := by
        simpa using (Bool.and_eq_true_iff.mp he').2
      exact Or.inl ⟨Or.inr ⟨rfl, hb, start, e, rfl, hu, he'⟩,
        by simpa only [note, hc, hcancelled, Bool.or_true] using hn⟩

end Ledger

end Upkeep
