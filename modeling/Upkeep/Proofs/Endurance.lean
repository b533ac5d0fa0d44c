import Upkeep.Proofs.History
import Upkeep.Run

/-!
# Calls that never return

A refresh, a query, a fetch, a transaction and the delivery of a report each have a limit. If such a
call never returns it is given up on when the limit has passed, so a program that waits for it goes
on (`Program.endure`). Without a limit it would wait forever; and no call has one but these.

To be given up on is nothing special to the stages of a run: they do what they do when the call
returns in time, with the error that says that it has timed out. So a run in which calls were given
up on is one in which they failed (`Program.Lenient`).

## Main definitions

* `Faltering`: a world in which calls may never return.
* `Request.overdue?`, `Program.endure`: a program in such a world.
* `Event.excuse`: the same event, if the call had returned.

## Main results

* `Program.exists_endure`: a program ends if only calls with a limit never return.
* `Run.lenient_run`: to a run a call that is given up on is one that has failed.
-/

namespace Upkeep

/-! ### Limits -/

/-- A world in which calls may never return: there is no answer to them. The state is the one in
which the world is when the call returns or is given up on. -/
abbrev Faltering (σ : Type) := (q : Request) → σ → Option (Answer q.Reply) × σ

/-- What comes of a piece of work that is given up on. Only fetches ever are. -/
def Job.overdue? : (job : Job) → Option job.Result
  | .fetch .. => some .expired
  | _ => none

/-- What comes of several pieces of work that all never end: a fetch is given up on. -/
def Landing.overdue? : (first : Nat × Job) → (rest : List (Nat × Job)) →
    Option (Landing first rest)
  | first, [] => first.2.overdue?
  | first, next :: rest =>
    match first.2.overdue? with
    | some r => some (.inl r)
    | none => (Landing.overdue? next rest).map .inr

/-- What a program has in place of an answer once the limit has passed that the request sets. There
is nothing if it sets none. -/
def Request.overdue? : (q : Request) → Option q.Reply
  | .refresh .. => some .expired
  | .query .. => some .expired
  | .apply .. => some .expired
  | .emit .. => some .expired
  | .await first rest => Landing.overdue? first rest
  | _ => none

/-- Whether a request waits for a refresh, a query, a transaction, the delivery of a report, or for
nothing but fetches. -/
def Request.mayHang : Request → Bool
  | .refresh .. | .query .. | .apply .. | .emit .. => true
  | .await first rest => (first :: rest).all fun f => f.2.isFetch
  | _ => false

theorem Landing.exists_overdue {first : Nat × Job} (hfirst : first.2.isFetch = true)
    (rest : List (Nat × Job)) : ∃ landing, Landing.overdue? first rest = some landing := by
  obtain ⟨i, job⟩ := first
  cases job with
  | fetch c dir limit => cases rest <;> exact ⟨_, rfl⟩
  | _ => cases hfirst

/-- What may never return has a limit. -/
theorem Request.exists_overdue {q : Request} (hq : q.mayHang = true) :
    ∃ reply, q.overdue? = some reply := by
  cases q with
  | refresh repository limit | query repositories limit | apply artifacts limit
  | emit index r report limit => exact ⟨_, rfl⟩
  | await first rest => exact Landing.exists_overdue (by simp_all [mayHang]) rest
  | _ => cases hq

namespace Program

variable {α β σ : Type} {world : Faltering σ} {p : Program α} {h : History} {a : α}

/-- What a program does and comes to in a world in which calls may never return: those are given up
on when their limits have passed. It comes to nothing if one has no limit. -/
def endure (world : Faltering σ) : Program α → σ → Option (History × α)
  | .done a, _ => some ([], a)
  | .ask q next, s =>
    match (world q s).1.or (q.overdue?.map fun reply => ⟨reply, true, false⟩) with
    | none => none
    | some answer => (endure world (next answer) (world q s).2).map fun (h, a) =>
        (⟨q, answer⟩ :: h, a)

/-- **A program ends if only calls with a limit never return.** What it does is one of its
histories; and nobody has asked for cancellation, if nobody does in that world. -/
theorem exists_endure (limited : ∀ q s, (world q s).1 = none → q.mayHang = true)
    (uncancelled : ∀ q s answer, (world q s).1 = some answer → answer.cancelled = false)
    (p : Program α) (s : σ) :
    ∃ h a, p.endure world s = some (h, a) ∧ p.Leads h a ∧ h.cancelled = false := by
  induction p generalizing s with
  | done a => exact ⟨[], a, rfl, ⟨rfl, rfl⟩, rfl⟩
  | ask q next ih =>
    obtain ⟨answer, hanswer, hquiet⟩ : ∃ answer,
        (world q s).1.or (q.overdue?.map fun reply => ⟨reply, true, false⟩) = some answer ∧
          answer.cancelled = false := by
      cases hw : (world q s).1 with
      | some answer => exact ⟨answer, rfl, uncancelled q s answer hw⟩
      | none =>
        obtain ⟨reply, hreply⟩ := Request.exists_overdue (limited q s hw)
        exact ⟨⟨reply, true, false⟩, by rw [hreply]; rfl, rfl⟩
    obtain ⟨h, a, hendure, hl, hcancelled⟩ := ih answer (world q s).2
    refine ⟨⟨q, answer⟩ :: h, a, ?_, ⟨answer, h, rfl, hl⟩, ?_⟩
    · rw [endure, hanswer]
      dsimp only
      rw [hendure]
      rfl
    · rw [History.cancelled_cons, hquiet, hcancelled]
      rfl

end Program

/-! ### Excuses -/

/-- Something that was done in time, if not as it should be. -/
def Timed.excuse {α : Type} (instead : α) : Timed α → Timed α
  | .inTime value => .inTime value
  | .expired => .inTime instead

/-- A fetch that is given up on fails in passing. -/
def Job.excuse : (job : Job) → job.Result → job.Result
  | .fetch _ _ limit, r => Timed.excuse (.error (.transient (timedOut limit))) r
  | .rest _, r => r
  | .digest .., r => r
  | .discard _, r => r

/-- The same for the piece of work that is done first. -/
def Landing.excuse : (first : Nat × Job) → (rest : List (Nat × Job)) → Landing first rest →
    Landing first rest
  | first, [], r => first.2.excuse r
  | first, _ :: _, .inl r => .inl (first.2.excuse r)
  | _, next :: rest, .inr landing => .inr (Landing.excuse next rest landing)

/-- A call that is given up on returns, with the error that says so. -/
def Request.excuse : (q : Request) → q.Reply → q.Reply
  | .refresh _ limit, r => Timed.excuse (.error (timedOut limit)) r
  | .query _ limit, r => Timed.excuse (.error (timedOut limit)) r
  | .apply _ limit, r => Timed.excuse (.error (.timeout limit)) r
  | .emit _ _ _ limit, r => Timed.excuse (.error (.timeout limit.seconds)) r
  | .begin _ job, r => r.map job.excuse
  | .await first rest, r => Landing.excuse first rest r
  | _, r => r

/-- The same event, if the call had returned. -/
def Event.excuse (e : Event) : Event :=
  ⟨e.request, { e.answer with value := e.request.excuse e.answer.value }⟩

namespace Program

variable {α β : Type} {p : Program α} {h : History} {a : α}

/-- A program to which a call that is given up on is one that has failed. -/
inductive Lenient : Program α → Prop
  /-- It is done. -/
  | done (a : α) : Lenient (.done a)
  /-- It goes on in the same way. -/
  | ask {q : Request} {next : Answer q.Reply → Program α}
      (same : ∀ answer, next { answer with value := q.excuse answer.value } = next answer)
      (rest : ∀ answer, Lenient (next answer)) : Lenient (.ask q next)

/-- **A lenient program does the same if every call returns.** -/
theorem Lenient.leads (hp : p.Lenient) (hl : p.Leads h a) :
    p.Leads (h.map Event.excuse) a := by
  induction hp generalizing h with
  | done b =>
    obtain ⟨rfl, rfl⟩ := hl
    exact ⟨rfl, rfl⟩
  | @ask q next same rest ih =>
    obtain ⟨answer, h, rfl, hrest⟩ := hl
    refine ⟨{ answer with value := q.excuse answer.value }, h.map Event.excuse, rfl, ?_⟩
    rw [same]
    exact ih answer hrest

theorem Lenient.bind {f : α → Program β} (hp : p.Lenient) (hf : ∀ a, (f a).Lenient) :
    (p.bind f).Lenient := by
  induction hp with
  | done a => exact hf a
  | ask same rest ih =>
    exact .ask (fun answer => congrArg (fun p : Program α => p.bind f) (same answer)) ih

theorem Lenient.interruptible (hp : p.Lenient) (c : Bool) : (p.interruptible c).Lenient := by
  induction hp generalizing c with
  | done a => exact .done _
  | ask same rest ih =>
    refine .ask (fun answer => ?_) (fun answer => ?_)
    · dsimp only
      rw [same]
    · split
      · exact .done _
      · exact ih answer _

theorem Lenient.guarded (hp : p.Lenient) (c : Bool) : (p.guarded c).Lenient := by
  rw [Program.guarded]
  split
  · exact .done _
  · exact hp.interruptible c

end Program

namespace Ledger

variable {α β : Type} {l : Ledger}

theorem lenient_call {q : Request} {next : Ledger → q.Reply → Program β}
    (same : ∀ l r, next l (q.excuse r) = next l r) (rest : ∀ l r, (next l r).Lenient) :
    (l.call q next).Lenient :=
  .ask (fun _ => same _ _) fun _ => rest _ _

theorem lenient_guard {stage : Program α} {next : Ledger → Option α → Program β}
    (hstage : stage.Lenient) (rest : ∀ l a, (next l a).Lenient) :
    (l.guard stage next).Lenient :=
  (hstage.guarded _).bind fun _ => rest _ _

end Ledger

/-! ### Stages -/

theorem Metadata.lenient_refreshStale (maxAge limit : Span) (now : Instant) (s : Summary)
    (rs : List Repository) : (refreshStale maxAge limit now s rs).Lenient := by
  induction rs generalizing s with
  | nil => exact .done _
  | cons r rs ih =>
    rw [refreshStale]
    split
    · refine .ask (fun answer => ?_) fun _ => ih _
      rcases answer with ⟨_ | _, waited, cancelled⟩ <;> rfl
    · exact ih _

theorem Metadata.lenient_ensureFresh (only : List String) (maxAge limit : Span) (now : Instant) :
    (ensureFresh only maxAge limit now).Lenient := by
  refine .ask (fun _ => rfl) fun answer => ?_
  dsimp only
  split
  · exact .done _
  · split
    · exact .done _
    · refine (lenient_refreshStale _ _ _ _ _).bind fun s => ?_
      split <;> exact .done _

theorem Upgrades.lenient_list (scope : Scope) (exclude available : List String) (limit : Span) :
    (list scope exclude available limit).Lenient := by
  refine .ask (fun answer => ?_) fun _ => .done _
  rcases answer with ⟨_ | _, waited, cancelled⟩ <;> rfl

theorem Transaction.lenient_apply (artifacts : List Artifact) (limit : Span) :
    (apply artifacts limit).Lenient := by
  rw [apply]
  split
  · exact .done _
  · refine .ask (fun answer => ?_) fun _ => .done _
    rcases answer with ⟨_ | _, waited, cancelled⟩ <;> rfl

theorem Reboot.lenient_advise (policy : RebootPolicy) (applied : List Candidate) :
    (advise policy applied).Lenient := by
  unfold advise
  split
  · exact .done _
  · cases policy with
    | never | whenChanged => exact .done _
    | whenNeeded => exact .ask (fun _ => rfl) fun _ => .done _

namespace Emission

theorem lenient_deliver (limit : Span) (r : RunResult) (report : Report) (s : Summary) (i : Nat)
    (names : List String) : (deliver limit r report s i names).Lenient := by
  induction names generalizing s i with
  | nil => exact .done _
  | cons name names ih =>
    refine .ask (fun answer => ?_) fun _ => ih _ _
    rcases answer with ⟨_ | _, waited, cancelled⟩ <;> rfl

theorem lenient_withdraw (i n : Nat) : (withdraw i n).Lenient := by
  induction n generalizing i with
  | zero => exact .done _
  | succ n ih => exact .ask (fun _ => rfl) fun _ => ih _

theorem lenient_report (settings : Settings) (r : RunResult) :
    (Emission.report settings r).Lenient := by
  rw [Emission.report]
  split
  · exact .done _
  · split
    · exact lenient_deliver _ _ _ _ _ _
    · exact lenient_withdraw _ _

end Emission

namespace Download

variable {d : DownloadConfig}

/-- A download goes on after a fetch that was given up on as after one that failed in passing. -/
theorem Flight.advance_excuse (f : Flight) (r : (f.piece d).2.Result) :
    f.advance d ((f.piece d).2.excuse r) = f.advance d r := by
  obtain ⟨i, c, t⟩ := f
  cases t with
  | fetching attempt => rcases r with _ | _ <;> rfl
  | _ => rfl

theorem Flight.land_excuse (first : Flight) (rest : List Flight)
    (landing : Landing (first.piece d) (rest.map (piece d))) :
    land d first rest (Landing.excuse _ _ landing) = land d first rest landing := by
  induction rest generalizing first with
  | nil => exact first.advance_excuse landing
  | cons next rest ih =>
    cases landing with
    | inl r => exact first.advance_excuse r
    | inr landing => exact ih next landing

theorem lenient_turns (most : Nat) (b : Board) : (turns d most b).Lenient := by
  induction most generalizing b with
  | zero => exact .done _
  | succ most ih =>
    rw [turns]
    split
    · rename_i f hdue
      refine .ask (fun answer => ?_) fun answer => ?_
      · rcases answer with ⟨_ | r, waited, cancelled⟩
        · rfl
        · exact congrArg (fun entry => turns d most (b.move entry)) (f.advance_excuse r)
      · split <;> exact ih _
    · split
      · exact ih _
      · rw [Board.wait]
        split
        · exact .done _
        · refine .ask (fun answer => ?_) fun _ => ih _
          exact congrArg (fun entry => turns d most (b.move entry))
            (Flight.land_excuse _ _ answer.value)

theorem lenient_all (d : DownloadConfig) (cs : List Candidate) : (all d cs).Lenient :=
  (lenient_turns _ _).bind fun _ => .done _

end Download

/-! ### Runs -/

namespace Run

variable (s : Settings)

theorem lenient_adviseReboot (l : Ledger) : (adviseReboot s l).Lenient := by
  rw [adviseReboot]
  exact Ledger.lenient_guard (Reboot.lenient_advise _ _) fun _ _ => .done _

theorem lenient_applyArtifacts (report : Download.Report) (l : Ledger) :
    (applyArtifacts s report l).Lenient := by
  rw [applyArtifacts]
  refine Ledger.lenient_guard (Transaction.lenient_apply _ _) fun l answer => ?_
  rcases answer with _ | e | applied
  · exact .done _
  · dsimp only
    split
    · exact .done _
    · split
      · exact lenient_adviseReboot s _
      · exact .done _
  · exact lenient_adviseReboot s _

theorem lenient_download (l : Ledger) : (download s l).Lenient := by
  rw [download]
  refine Ledger.lenient_guard (Download.lenient_all _ _) fun l answer => ?_
  rcases answer with _ | report
  · exact .done _
  · dsimp only
    split
    · exact .done _
    · exact lenient_applyArtifacts s _ _

theorem lenient_query (available : List String) (l : Ledger) : (query s available l).Lenient := by
  rw [query]
  refine Ledger.lenient_guard (Upgrades.lenient_list _ _ _ _) fun l answer => ?_
  rcases answer with _ | e | candidates
  · exact .done _
  · exact .done _
  · dsimp only
    split
    · exact .done _
    · split
      · exact .done _
      · exact lenient_download s _

theorem lenient_refresh (l : Ledger) : (refresh s l).Lenient := by
  refine Ledger.lenient_call (fun _ _ => rfl) fun l now => ?_
  refine Ledger.lenient_guard (Metadata.lenient_ensureFresh _ _ _ _) fun l answer => ?_
  rcases answer with _ | e | summary
  · exact .done _
  · exact .done _
  · exact lenient_query s _ _

theorem lenient_lookForNetwork (limit : Span) (patience : Nat) (l : Ledger) :
    (lookForNetwork s limit patience l).Lenient := by
  induction patience generalizing l with
  | zero => exact lenient_refresh s l
  | succ patience ih =>
    refine Ledger.lenient_guard (.ask (fun _ => rfl) fun _ => .done _) fun l online => ?_
    rcases online with _ | _ | _
    · exact .done _
    · refine Ledger.lenient_call (fun _ _ => rfl) fun l overdue => ?_
      split
      · exact lenient_refresh s _
      · refine Ledger.lenient_guard (.ask (fun _ => rfl) fun _ => .done _) fun l rested => ?_
        cases rested with
        | none => exact .done _
        | some _ => exact ih _
    · exact lenient_refresh s _

theorem lenient_awaitNetwork (l : Ledger) : (awaitNetwork s l).Lenient := by
  rw [awaitNetwork]
  split
  · exact lenient_refresh s l
  · exact lenient_lookForNetwork s _ _ l

theorem lenient_gate (l : Ledger) : (gate s l).Lenient := by
  refine Ledger.lenient_call (fun _ _ => rfl) fun l last => ?_
  split
  · rw [sleepFirst]
    split
    · refine Ledger.lenient_guard (.ask (fun _ => rfl) fun _ => .done _) fun l rested => ?_
      cases rested with
      | none => exact .done _
      | some _ => exact lenient_awaitNetwork s _
    · exact lenient_awaitNetwork s _
  · exact .done _

theorem lenient_finish (l : Ledger) : (finish l).Lenient := by
  rw [finish]
  split
  · exact .done _
  · exact Ledger.lenient_call (fun _ _ => rfl) fun _ _ => .done _

theorem lenient_letGo (locked : Bool) (l : Ledger) : (letGo locked l).Lenient := by
  rw [letGo]
  split
  · exact Ledger.lenient_call (fun _ _ => rfl) fun l _ => lenient_finish l
  · exact lenient_finish l

theorem lenient_triggerReboot (locked : Bool) (l : Ledger) :
    (triggerReboot s locked l).Lenient := by
  rw [triggerReboot]
  split
  · exact Ledger.lenient_call (fun _ _ => rfl) fun l _ => lenient_letGo locked _
  · exact lenient_letGo locked l

theorem lenient_persist (reached : Reached) (locked : Bool) (l : Ledger) :
    (persist s reached locked l).Lenient := by
  rw [persist]
  split
  · refine Ledger.lenient_call (fun _ _ => rfl) fun l now => ?_
    exact Ledger.lenient_call (fun _ _ => rfl) fun l _ => lenient_triggerReboot s locked _
  · exact lenient_triggerReboot s locked l

theorem lenient_emit (reached : Reached) (locked : Bool) (l : Ledger) :
    (emit s reached locked l).Lenient := by
  refine Ledger.lenient_call (fun _ _ => rfl) fun l now => ?_
  exact (Emission.lenient_report _ _).bind fun summary => lenient_persist s reached locked _

theorem lenient_conclude (past : Ledger × Reached) : (conclude s past).Lenient := by
  obtain ⟨l, reached⟩ := past
  cases reached with
  | skipped => exact (lenient_finish l).bind fun _ => .ask (fun _ => rfl) fun _ => .done _
  | stopped | queried => exact lenient_emit s _ true l

/-- **To a run a call that is given up on is one that has failed.** -/
theorem lenient_run : (run s).Lenient := by
  refine .ask (fun _ => rfl) fun started => ?_
  refine Ledger.lenient_call (fun _ _ => rfl) fun l answer => ?_
  rcases answer with (holder | ⟨path, cause⟩) | _
  · exact lenient_finish _
  · exact lenient_emit s _ _ _
  · exact (lenient_gate s l).bind fun past => lenient_conclude s past

end Run

end Upkeep
