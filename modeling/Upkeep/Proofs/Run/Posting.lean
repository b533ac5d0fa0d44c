import Upkeep.Proofs.Download.Storage
import Upkeep.Proofs.Files.Absence
import Upkeep.Proofs.Run.Idleness
import Upkeep.Proofs.Run.Rebooting
import Upkeep.Proofs.Run.Series

/-!
# What the notice shows

One emitter keeps the notice file. A run asks it once to show a report, or once to show nothing,
or, if the run was not due or found the lock taken, for nothing at all. So after any number of runs
the file is that of the last run that was neither.

Which of them a run asks for is told by its history, and what becomes of the file by what was asked
for last. The report was rendered before the run ended, so the result that the run returns may say
more: there may be warnings since, and a reboot may have been triggered. All else that the report
says is said of the result that is returned.

That the emitter publishes and withdraws is said of a world, and every machine does it
(`Run.tended_live`). That nothing else touches the file is said of what a run asks for and of the
states in which it does (`World.Spares`): what a request could do with other paths, or to other
files, does not matter.

## Main definitions

* `Request.notice?`, `History.notices`: what an emitter is asked to show.
* `World.Posts`, `World.Spares`: what keeps a notice, and what leaves it alone.
* `RunResult.isQuiet`, `Run.Posting`: what a run asks the notice to show.
* `Run.Attended`: runs that keep a notice, and manage to.

## Main results

* `Run.posting_of_leads`: what a run asks for.
* `Run.tended_live`: on a machine the notice is kept.
* `Run.notice_shows`: the notice is that of the last run that was due and got the lock.
-/

namespace Upkeep

/-! ### What an emitter is asked to show -/

/-- What a request asks an emitter to show: a report, or nothing. -/
def Request.notice? (index : Nat) : Request → Option (Option Report)
  | .emit i _ report _ => if i = index then some (some report) else none
  | .clear i => if i = index then some none else none
  | _ => none

theorem Request.notice?_eq_some {index : Nat} {q : Request} {n : Option Report}
    (h : q.notice? index = some n) :
    (∃ r report limit, q = .emit index r report limit ∧ n = some report) ∨
      q = .clear index ∧ n = none := by
  cases q with
  | emit i r report limit =>
    rw [notice?] at h
    split at h
    · rename_i hi
      subst hi
      exact Or.inl ⟨r, report, limit, rfl, (Option.some.inj h).symm⟩
    · cases h
  | clear i =>
    rw [notice?] at h
    split at h
    · rename_i hi
      subst hi
      exact Or.inr ⟨rfl, (Option.some.inj h).symm⟩
    · cases h
  | _ => cases h

/-- Whether an emitter has done what it was asked to do. -/
def Event.heeded : Event → Bool
  | ⟨.emit .., answer⟩ =>
    match answer.value with
    | .inTime (.ok ()) => true
    | _ => false
  | ⟨.clear _, answer⟩ => answer.value.isOk
  | _ => true

theorem Event.heeded_emit {i : Nat} {r : RunResult} {report : Report} {limit : Span}
    {answer : Delivery} (h : Event.heeded ⟨.emit i r report limit, answer⟩ = true) :
    answer.value = .inTime (.ok ()) := by
  rw [heeded] at h
  split at h
  · rename_i hvalue
    exact hvalue
  · cases h

theorem Event.heeded_clear {i : Nat} {answer : Answer (Except EmitError Unit)}
    (h : Event.heeded ⟨.clear i, answer⟩ = true) : answer.value = .ok () := by
  rw [heeded] at h
  cases hvalue : answer.value with
  | ok => rfl
  | error e =>
    rw [hvalue] at h
    cases h

namespace History

/-- What an emitter was asked to show, one thing after the other. -/
def notices (index : Nat) (h : History) : List (Option Report) :=
  h.filterMap fun e => e.request.notice? index

/-- An emitter has done all that it was asked to do. -/
def Heeded (index : Nat) (h : History) : Prop :=
  ∀ e ∈ h, (e.request.notice? index).isSome = true → e.heeded = true

instance (index : Nat) (h : History) : Decidable (h.Heeded index) :=
  inferInstanceAs (Decidable (∀ e ∈ h, (e.request.notice? index).isSome = true → e.heeded = true))

variable {index : Nat} {h : History}

theorem notices_cons (index : Nat) (e : Event) (h : History) :
    notices index (e :: h) = (e.request.notice? index).toList ++ notices index h := by
  rw [notices, List.filterMap_cons]
  cases e.request.notice? index <;> rfl

/-- What emitters are asked to show they are asked when the run reports. -/
theorem notices_eq_during (index : Nat) (h : History) :
    h.notices index = (h.during .report).notices index := by
  rw [notices, notices, during, List.filterMap_filter]
  refine List.filterMap_congr fun e _ => ?_
  obtain ⟨q, answer⟩ := e
  cases q <;> rfl

theorem notices_eq_map (index : Nat) (h : History) :
    h.notices index = (h.map Event.request).filterMap (·.notice? index) := by
  rw [List.filterMap_map]
  rfl

theorem filterMap_range' {α : Type} (a : α) (i n : Nat) :
    (List.range' i n).filterMap (fun j => if j = index then some a else none) =
      if i ≤ index ∧ index < i + n then [a] else [] := by
  induction n generalizing i with
  | zero =>
    rw [if_neg (by omega)]
    rfl
  | succ n ih =>
    rw [List.range'_succ, List.filterMap_cons, ih]
    by_cases hi : i = index
    · rw [if_pos hi, if_neg (by omega), if_pos (by omega)]
    · rw [if_neg hi]
      dsimp only
      congr 1
      exact propext ⟨fun h => by omega, fun h => by omega⟩

/-- Each emitter is asked once to show the report. -/
theorem notices_deliveries {limit : Span} {r : RunResult} {report : Report}
    {answers : List Delivery} (hindex : index < answers.length) :
    notices index (Emission.deliveries limit r report 0 answers) = [some report] := by
  rw [notices_eq_map, Emission.map_request_deliveries, List.filterMap_map]
  change (List.range' 0 answers.length).filterMap
    (fun j => if j = index then some (some report) else none) = _
  rw [filterMap_range', if_pos (by omega)]

/-- Each emitter is asked once to show nothing. -/
theorem notices_withdrawals {answers : List (Answer (Except EmitError Unit))}
    (hindex : index < answers.length) :
    notices index (Emission.withdrawals 0 answers) = [none] := by
  rw [notices_eq_map, Emission.map_request_withdrawals, List.filterMap_map]
  change (List.range' 0 answers.length).filterMap
    (fun j => if j = index then some none else none) = _
  rw [filterMap_range', if_pos (by omega)]

end History

/-! ### Worlds that keep a notice -/

/-- What is read of a notice that shows a report, or nothing. -/
def Notice.shown : Option Report → Except IoCause ByteArray
  | some report => .ok (content report)
  | none => .error .notFound

/-- The same is read of a notice and of its temporary sibling. -/
def Notice.Same (path : String) (fs fs' : Files) : Prop :=
  fs'.read path = fs.read path ∧
    fs'.read (Path.temporary path) = fs.read (Path.temporary path)

instance (path : String) (fs fs' : Files) : Decidable (Notice.Same path fs fs') :=
  inferInstanceAs (Decidable (_ ∧ _))

section

variable {σ : Type} {files : σ → Files} {path : String} {index : Nat} {world : World σ}

/-- One emitter keeps the notice at a path. -/
structure World.Posts (world : World σ) (files : σ → Files) (path : String) (index : Nat) :
    Prop where
  /-- An emitter that has shown a report has published it. -/
  posted : ∀ r report limit s,
    (world (.emit index r report limit) s).1.value = .inTime (.ok ()) →
      Notice.publish (files s) path report =
        (.ok (), files (world (.emit index r report limit) s).2)
  /-- An emitter that shows nothing has withdrawn it. -/
  withdrawn : ∀ s, (world (.clear index) s).1.value = .ok () →
    Notice.withdraw (files s) path = (.ok (), files (world (.clear index) s).2)

/-- Along a history, nothing that is asked of anything but one emitter touches the notice at a path
or its temporary sibling. -/
def World.Spares (world : World σ) (files : σ → Files) (path : String) (index : Nat) :
    History → σ → Prop
  | [], _ => True
  | ⟨q, _⟩ :: h, s =>
    (q.notice? index = none → Notice.Same path (files s) (files (world q s).2)) ∧
      Spares world files path index h (world q s).2

instance World.decidableSpares (world : World σ) (files : σ → Files) (path : String)
    (index : Nat) : (h : History) → (s : σ) → Decidable (world.Spares files path index h s)
  | [], _ => inferInstanceAs (Decidable True)
  | ⟨q, _⟩ :: h, s =>
    have := decidableSpares world files path index h (world q s).2
    inferInstanceAs (Decidable (_ ∧ _))

/-- A world in which nothing else ever touches the notice. -/
theorem World.spares_of_forall
    (spared : ∀ q s, q.notice? index = none → Notice.Same path (files s) (files (world q s).2))
    (h : History) (s : σ) : world.Spares files path index h s := by
  induction h generalizing s with
  | nil => trivial
  | cons e h ih => exact ⟨spared e.request s, ih (world e.request s).2⟩

/-- What one request does to the notice. -/
theorem read_answer (hw : world.Posts files path index) (q : Request) (s : σ)
    (spared : q.notice? index = none → Notice.Same path (files s) (files (world q s).2))
    (heeded : (q.notice? index).isSome = true → Event.heeded ⟨q, (world q s).1⟩ = true) :
    (files (world q s).2).read path =
      ((q.notice? index).map Notice.shown).getD ((files s).read path) := by
  cases hn : q.notice? index with
  | none => exact (spared hn).1
  | some n =>
    rw [hn] at heeded
    rcases Request.notice?_eq_some hn with ⟨r, report, limit, rfl, rfl⟩ | ⟨rfl, rfl⟩
    · exact (Notice.read_publish (hw.posted r report limit s (Event.heeded_emit (heeded rfl)))).1
    · exact (Notice.read_withdraw (hw.withdrawn s (Event.heeded_clear (heeded rfl)))).1

/-- What one request does to the temporary sibling: where there is none, or where a report is
shown, there is none afterwards. -/
theorem read_sibling_answer (hw : world.Posts files path index) (hne : Path.temporary path ≠ path)
    (q : Request) (s : σ)
    (spared : q.notice? index = none → Notice.Same path (files s) (files (world q s).2))
    (heeded : (q.notice? index).isSome = true → Event.heeded ⟨q, (world q s).1⟩ = true)
    (hnone : (∃ report, q.notice? index = some (some report)) ∨
      (files s).read (Path.temporary path) = .error .notFound) :
    (files (world q s).2).read (Path.temporary path) = .error .notFound := by
  cases hn : q.notice? index with
  | none =>
    rw [hn] at hnone
    rw [(spared hn).2]
    exact hnone.resolve_left (by simp)
  | some n =>
    rw [hn] at heeded hnone
    rcases Request.notice?_eq_some hn with ⟨r, report, limit, rfl, rfl⟩ | ⟨rfl, rfl⟩
    · have hposted := hw.posted r report limit s (Event.heeded_emit (heeded rfl))
      exact (Notice.read_publish hposted).2 hne
    · have hwithdrawn := hw.withdrawn s (Event.heeded_clear (heeded rfl))
      exact (Notice.read_withdraw hwithdrawn).2 _ (hnone.resolve_left (by simp))

/-- **What a program does to the notice** is what it asked for last. -/
theorem read_run {α : Type} (hw : world.Posts files path index) (p : Program α) (s : σ)
    (spared : world.Spares files path index (p.history world s) s)
    (heeded : (p.history world s).Heeded index) :
    (files (p.run world s).2).read path =
      (((p.history world s).notices index).getLast?.map Notice.shown).getD
        ((files s).read path) := by
  induction p generalizing s with
  | done a => rfl
  | ask q next ih =>
    obtain ⟨hfirst, hrest⟩ := List.forall_mem_cons.mp heeded
    rw [Program.run, Program.history, ih _ _ spared.2 hrest,
      read_answer hw q s spared.1 hfirst, History.notices_cons]
    cases q.notice? index with
    | none => rfl
    | some n =>
      rw [Option.toList_some, List.singleton_append, List.getLast?_cons]
      cases (History.notices index _).getLast? <;> rfl

/-- What a program does to the temporary sibling. -/
theorem read_sibling_run {α : Type} (hw : world.Posts files path index)
    (hne : Path.temporary path ≠ path) (p : Program α) (s : σ)
    (spared : world.Spares files path index (p.history world s) s)
    (heeded : (p.history world s).Heeded index)
    (hnone : (∃ report, some report ∈ (p.history world s).notices index) ∨
      (files s).read (Path.temporary path) = .error .notFound) :
    (files (p.run world s).2).read (Path.temporary path) = .error .notFound := by
  induction p generalizing s with
  | done a => exact hnone.resolve_left (by rintro ⟨report, hmem⟩; cases hmem)
  | ask q next ih =>
    obtain ⟨hfirst, hrest⟩ := List.forall_mem_cons.mp heeded
    refine ih _ _ spared.2 hrest ?_
    have hstep := read_sibling_answer hw hne q s spared.1 hfirst
    rw [Program.history, History.notices_cons] at hnone
    rcases hnone with ⟨report, hmem⟩ | hnone
    · rcases List.mem_append.mp hmem with hmem | hmem
      · exact Or.inr (hstep (Or.inl ⟨report, Option.mem_toList.mp hmem⟩))
      · exact Or.inl ⟨report, hmem⟩
    · exact Or.inr (hstep (Or.inr hnone))

end

/-- The emitter of that name is the one that keeps a notice. -/
theorem Emitter.exists_notice {emitters : List Emitter}
    (hmem : EmitterKind.motd.name ∈ emitters.map name) :
    ∃ path, emitters[(emitters.map name).idxOf EmitterKind.motd.name]? = some (.notice path) := by
  have hlt := List.idxOf_lt_length_of_mem hmem
  have hname := List.getElem_idxOf hlt
  rw [List.getElem_map] at hname
  rw [List.length_map] at hlt
  rw [List.getElem?_eq_getElem hlt]
  cases hemitter : emitters[(emitters.map name).idxOf EmitterKind.motd.name] with
  | notice path => exact ⟨path, rfl⟩
  | _ =>
    rw [hemitter] at hname
    revert hname
    simp [name, kind, EmitterKind.name]

/-- A machine keeps the notice of its emitter. -/
theorem Live.posts_answer (setup : Live.Setup) {index : Nat} {path : String}
    (hnotice : setup.emitters[index]? = some (.notice path)) :
    (answer setup).Posts (·.machine.files) path index where
  posted r report limit s := by
    simp only [answer, emit, hnotice, timed, attempt]
    intro hvalue
    cases hlimit : isNothing (some limit) with
    | true =>
      rw [hlimit] at hvalue
      cases hvalue
    | false =>
      simp only [hlimit, Bool.false_eq_true, if_false, Machine.attempt, Emitter.emit,
        Machine.withFiles, Machine.files, State.later] at hvalue ⊢
      injection hvalue with hresult
      rw [← hresult]
  withdrawn s := by
    simp only [answer, clear, hnotice, Emitter.clear, Machine.withFiles, Machine.files,
      State.later]
    intro hvalue
    rw [← hvalue]

/-! ### What a run asks for -/

/-- A run that was not due or found the lock taken. -/
def RunResult.isQuiet (r : RunResult) : Bool :=
  r.outcome == .skipped || r.isAbortedWith .lockContention

/-- What the report of one result says of another. -/
structure Report.Tells (told r : RunResult) : Prop where
  /-- The title. -/
  title : titleOf told = titleOf r
  /-- The outcome. -/
  outcome : told.outcome = r.outcome ∧ told.abortKind = r.abortKind
  /-- The counts. -/
  counts : counts told = counts r
  /-- The packages, and what became of each. -/
  packages : told.considered.map (fun c => packageText c ++ marker told c) =
    r.considered.map fun c => packageText c ++ marker r c
  /-- The failures. -/
  failures : told.failures = r.failures
  /-- The warnings so far. -/
  warnings : told.warnings <+: r.warnings

theorem RunResult.Precedes.tells {told r : RunResult} (h : told.Precedes r) :
    Report.Tells told r := by
  obtain ⟨hwarnings, hsame⟩ := h
  refine ⟨?_, ⟨?_, ?_⟩, ?_, ?_, ?_, hwarnings⟩ <;> rw [hsame] <;> rfl

namespace Run

section

variable {s : Settings} {p : Spot} {l l' : Ledger} {h h₀ : History} {reached : Reached}
  {record : Record} {index : Nat}

/-- A run that is stopped by lock contention has asked for the time and for the lock. -/
theorem taken_of_leads (hl : (run s).Leads h record)
    (hcontended : record.result.isAbortedWith .lockContention = true) :
    ∃ (started : Answer Instant) (lock : Answer (Except LockError Unit))
      (finished : Answer Instant),
      h = [⟨.now, started⟩, ⟨.acquireLock, lock⟩, ⟨.now, finished⟩] := by
  cases course_of_leads hl with
  | contended started answer finished taken => exact ⟨started, answer, finished, rfl⟩
  | unopened started answer failed closing =>
    rw [isAbortedWith_congr closing.deeds] at hcontended
    cases hcontended
  | skipped started answer finished release locked trip =>
    exact absurd (trip.uncontended.symm.trans hcontended) (by simp)
  | staged started answer locked trip due closing =>
    rw [isAbortedWith_congr closing.deeds, trip.uncontended] at hcontended
    cases hcontended

/-- What a run asks the notice to show. -/
inductive Posting (s : Settings) (index : Nat) (h : History) (r : RunResult) : Prop
  /-- Nothing is asked for. -/
  | quiet (isQuiet : r.isQuiet = true) (asked : h.notices index = [])
  /-- It is to show nothing: there was nothing to upgrade, and that is not to be reported. -/
  | withdrawn (isLoud : r.isQuiet = false) (upToDate : r.outcome = .upToDate)
      (unwanted : s.emitters.whenUpToDate = false) (asked : h.notices index = [none])
  /-- It is to show the one report of what the run did. -/
  | posted {told : RunResult} (isLoud : r.isQuiet = false)
      (wanted : Emission.isReported s.emitters r = true) (before : told.Precedes r)
      (untriggered : told.reboot.triggered = false)
      (rendered : ∃ e ∈ h, e.request = .emit index told (Report.render told) s.emitters.limit)
      (asked : h.notices index = [some (Report.render told)])

/-- **What a run asks the notice to show.** -/
theorem posting_of_leads (hl : (run s).Leads h record) (hindex : index < s.emitters.names.length) :
    Posting s index h record.result := by
  cases hquiet : record.result.isQuiet with
  | true =>
    refine .quiet hquiet ?_
    rw [RunResult.isQuiet, Bool.or_eq_true, beq_iff_eq] at hquiet
    rcases hquiet with hskipped | hcontended
    · obtain ⟨started, lock, marker, finished, release, rfl, -⟩ := skipped_of_leads hl hskipped
      rfl
    · obtain ⟨started, lock, finished, rfl⟩ := taken_of_leads hl hcontended
      rfl
  | false =>
    have hloud : record.result.outcome ≠ .skipped ∧
        record.result.isAbortedWith .lockContention = false := by
      simpa [RunResult.isQuiet] using hquiet
    cases informed_of_leads hl hloud.1 hloud.2 with
    | withdrawn upToDate unwanted asked each unwarned =>
      refine .withdrawn hquiet upToDate unwanted ?_
      rw [History.notices_eq_during, asked, History.notices_withdrawals (each ▸ hindex)]
    | delivered wanted truthful asked tallied parted warned =>
      rename_i told answers ds fs
      have hanswers : index < answers.length := tallied.length_eq ▸ hindex
      have hrequest : (Request.emit index told (Report.render told) s.emitters.limit) ∈
          (h.during .report).map Event.request := by
        rw [asked, Emission.map_request_deliveries, List.mem_map]
        exact ⟨index, by simpa using hanswers, rfl⟩
      obtain ⟨e, he, hrequest⟩ := List.mem_map.mp hrequest
      have hmem : e ∈ h := (List.mem_filter.mp he).1
      obtain ⟨hbefore, huntriggered, -⟩ := truth_of_leads hl hmem hrequest
      refine .posted hquiet wanted hbefore huntriggered ⟨e, hmem, hrequest⟩ ?_
      rw [History.notices_eq_during, asked, History.notices_deliveries hanswers]

end

/-! ### One run after the other -/

section

variable {σ : Type} {files : σ → Files} {path : String}

/-- Where a run has its notice among its emitters. -/
def Settings.notice (s : Settings) : Nat := s.emitters.names.idxOf EmitterKind.motd.name

/-- A run has one notice among its emitters, which the world keeps and the run leaves alone apart
from that, and the emitter manages to show what it is asked to. -/
structure Tended (files : σ → Files) (path : String) (s : Settings) (world : World σ)
    (start : σ) : Prop where
  /-- There is one. -/
  single : s.emitters.names.count EmitterKind.motd.name = 1
  /-- The world keeps it. -/
  posts : world.Posts files path s.notice
  /-- Nothing else that the run asks for touches it. -/
  spared : world.Spares files path s.notice ((run s).history world start) start
  /-- The emitter manages to. -/
  heeded : ((run s).history world start).Heeded s.notice

/-- Runs one after the other that all have one notice at a path, and manage to keep it. -/
def Attended (files : σ → Files) (path : String) : List (Settings × World σ) → σ → Prop
  | [], _ => True
  | (s, world) :: runs, start =>
    Tended files path s world start ∧ Attended files path runs ((run s).run world start).2

/-- **On a machine the notice is kept** wherever the run's one notice was set up to be, as long as
nothing else that the run asks for touches it and its file operations succeed. -/
theorem tended_live {s : Settings} {setup : Live.Setup}
    (named : s.emitters.names = setup.emitters.map Emitter.name)
    (single : s.emitters.names.count EmitterKind.motd.name = 1) :
    ∃ path, setup.emitters[s.notice]? = some (.notice path) ∧ ∀ start : Live.State,
      (Live.answer setup).Spares (·.machine.files) path s.notice
          ((run s).history (Live.answer setup) start) start →
        ((run s).history (Live.answer setup) start).Heeded s.notice →
          Tended (·.machine.files) path s (Live.answer setup) start := by
  have hmem : EmitterKind.motd.name ∈ setup.emitters.map Emitter.name := by
    rw [← named, ← List.count_pos_iff, single]
    exact Nat.one_pos
  obtain ⟨path, hpath⟩ := Emitter.exists_notice hmem
  rw [← named] at hpath
  exact ⟨path, hpath, fun start spared heeded =>
    ⟨single, Live.posts_answer setup hpath, spared, heeded⟩⟩

theorem Tended.notice_lt {s : Settings} {world : World σ} {start : σ}
    (ht : Tended files path s world start) : s.notice < s.emitters.names.length := by
  refine List.idxOf_lt_length_of_mem (List.count_pos_iff.mp ?_)
  rw [ht.single]
  exact Nat.one_pos

/-- What a run leaves in the notice, by what it asked the notice to show. -/
theorem Tended.read {s : Settings} {world : World σ} {start : σ}
    (ht : Tended files path s world start) {shown : List (Option Report)}
    (hshown : ((run s).history world start).notices s.notice = shown) :
    (files ((run s).run world start).2).read path =
      (shown.getLast?.map Notice.shown).getD ((files start).read path) := by
  rw [read_run ht.posts (run s) start ht.spared ht.heeded, hshown]

/-- A run leaves no temporary sibling where there was none, nor where it shows a report. -/
theorem Tended.read_sibling {s : Settings} {world : World σ} {start : σ}
    (ht : Tended files path s world start) (hne : Path.temporary path ≠ path)
    (hnone : (files start).read (Path.temporary path) = .error .notFound ∨
      Emission.isReported s.emitters ((run s).run world start).1.result = true ∧
        ((run s).run world start).1.result.isQuiet = false) :
    (files ((run s).run world start).2).read (Path.temporary path) = .error .notFound := by
  refine read_sibling_run ht.posts hne (run s) start ht.spared ht.heeded ?_
  rcases hnone with hnone | ⟨hreported, hloud⟩
  · exact Or.inr hnone
  refine Or.inl ?_
  cases posting_of_leads (Program.leads_history world (run s) start) ht.notice_lt with
  | quiet isQuiet _ =>
    rw [hloud] at isQuiet
    cases isQuiet
  | withdrawn _ upToDate unwanted _ =>
    rw [Emission.isReported, upToDate, unwanted] at hreported
    cases hreported
  | posted _ _ _ _ _ asked =>
    rw [asked]
    exact ⟨_, List.mem_singleton.mpr rfl⟩

theorem read_sibling_outlast {runs : List (Settings × World σ)} {start : σ}
    (attended : Attended files path runs start) (hne : Path.temporary path ≠ path)
    (hnone : (files start).read (Path.temporary path) = .error .notFound) :
    (files (outlast runs start)).read (Path.temporary path) = .error .notFound := by
  induction runs generalizing start with
  | nil => exact hnone
  | cons r runs ih => exact ih attended.2 (attended.1.read_sibling hne (Or.inl hnone))

/-- Quiet runs leave the notice as it is. -/
theorem read_outlast_of_quiet {runs : List (Settings × World σ)} {start : σ}
    (attended : Attended files path runs start)
    (quiet : ∀ e ∈ journal runs start, e.2.result.isQuiet = true) :
    (files (outlast runs start)).read path = (files start).read path := by
  induction runs generalizing start with
  | nil => rfl
  | cons r runs ih =>
    obtain ⟨s, world⟩ := r
    obtain ⟨hfirst, hrest⟩ := List.forall_mem_cons.mp quiet
    rw [outlast, ih attended.2 hrest]
    cases posting_of_leads (Program.leads_history world (run s) start)
      attended.1.notice_lt with
    | quiet _ asked => exact attended.1.read asked
    | withdrawn isLoud _ _ _ | posted isLoud _ _ _ _ _ =>
      rw [hfirst] at isLoud
      cases isLoud

/-- What the notice shows after a run. -/
structure Shows (s : Settings) (h : History) (r : RunResult) (fs : Files) (path : String) :
    Prop where
  /-- If there was nothing to upgrade, and that is not to be reported, it is not there. -/
  absent : r.outcome = .upToDate ∧ s.emitters.whenUpToDate = false →
    fs.read path = .error .notFound
  /-- Otherwise it is the report that the run rendered, which says of the result that the run
  returned all but what came later. -/
  present : ¬(r.outcome = .upToDate ∧ s.emitters.whenUpToDate = false) → ∃ told,
    fs.read path = .ok ((Report.render told).fullText ++ "\n").toUTF8 ∧
      (∃ e ∈ h, e.request = .emit s.notice told (Report.render told) s.emitters.limit) ∧
      told.Precedes r ∧ told.reboot.triggered = false ∧ Report.Tells told r

theorem Shows.congr {s : Settings} {h : History} {r : RunResult} {fs fs' : Files} {path : String}
    (hs : Shows s h r fs path) (hread : fs'.read path = fs.read path) : Shows s h r fs' path :=
  ⟨by rw [hread]; exact hs.absent, by rw [hread]; exact hs.present⟩

theorem Tended.shows {s : Settings} {world : World σ} {start : σ}
    (ht : Tended files path s world start)
    (loud : ((run s).run world start).1.result.isQuiet = false) :
    Shows s ((run s).history world start) ((run s).run world start).1.result
      (files ((run s).run world start).2) path := by
  cases posting_of_leads (Program.leads_history world (run s) start) ht.notice_lt with
  | quiet isQuiet _ =>
    rw [loud] at isQuiet
    cases isQuiet
  | withdrawn _ upToDate unwanted asked =>
    exact ⟨fun _ => ht.read asked, fun hshown => absurd ⟨upToDate, unwanted⟩ hshown⟩
  | posted _ wanted before untriggered rendered asked =>
    refine ⟨fun hunwanted => ?_, fun _ => ⟨_, ht.read asked, rendered, before, untriggered,
      before.tells⟩⟩
    rw [Emission.isReported, hunwanted.1, hunwanted.2] at wanted
    cases wanted

/-- **The notice is that of the last run that was due and got the lock**, and there is no temporary
sibling of it, unless there was one before and no report has been shown. -/
theorem notice_shows (before after : List (Settings × World σ)) {s : Settings} {world : World σ}
    {start : σ} (attended : Attended files path (before ++ (s, world) :: after) start)
    (loud : ((run s).run world (outlast before start)).1.result.isQuiet = false)
    (quiet : ∀ e ∈ journal after ((run s).run world (outlast before start)).2,
      e.2.result.isQuiet = true) :
    let last := (run s).run world (outlast before start)
    let fs := files (outlast (before ++ (s, world) :: after) start)
    Shows s ((run s).history world (outlast before start)) last.1.result fs path ∧
      (Path.temporary path ≠ path →
        (files start).read (Path.temporary path) = .error .notFound ∨
          Emission.isReported s.emitters last.1.result = true →
            fs.read (Path.temporary path) = .error .notFound) := by
  intro last fs
  induction before generalizing start with
  | nil =>
    obtain ⟨hfirst, hrest⟩ : Tended files path s world start ∧
      Attended files path after ((run s).run world start).2 := attended
    refine ⟨(hfirst.shows loud).congr (read_outlast_of_quiet hrest quiet), fun hne hnone => ?_⟩
    have hsibling := read_sibling_outlast hrest hne
      (hfirst.read_sibling hne (hnone.imp_right fun hreported => ⟨hreported, loud⟩))
    exact hsibling
  | cons r before ih =>
    obtain ⟨hfirst, hrest⟩ : Tended files path r.1 r.2 start ∧
      Attended files path (before ++ (s, world) :: after) ((run r.1).run r.2 start).2 := attended
    obtain ⟨hshows, hsibling⟩ := ih hrest loud quiet
    refine ⟨hshows, fun hne hnone => hsibling hne ?_⟩
    exact hnone.imp_left fun hnone => hfirst.read_sibling hne (Or.inl hnone)

/-- Settings with one emitter, which keeps a notice. -/
def notifying : Settings :=
  { applying with emitters := ⟨[EmitterKind.motd.name], false, ⟨1⟩⟩ }

/-- A world in which all goes well and the first emitter keeps a notice. -/
def keeping (path : String) (offered : List Candidate) : World Files
  | .emit 0 _ report _, fs =>
    (atOnce (.inTime (Notice.publish fs path report).1), (Notice.publish fs path report).2)
  | .clear 0, fs => (atOnce (Notice.withdraw fs path).1, (Notice.withdraw fs path).2)
  | q, fs => ((smooth offered q ()).1, fs)

/-- Such a world in which another run holds the lock. -/
def crowded (path : String) : World Files
  | .acquireLock, fs => (atOnce (.error (.alreadyRunning none)), fs)
  | q, fs => keeping path [] q fs

theorem posts_keeping (path : String) (offered : List Candidate) :
    (keeping path offered).Posts id path 0 where
  posted r report limit fs h := by
    injection h with hresult
    exact Prod.ext hresult rfl
  withdrawn fs h := Prod.ext h rfl

theorem same_keeping (path : String) (offered : List Candidate) (q : Request) (fs : Files)
    (hq : q.notice? 0 = none) : Notice.Same path fs (keeping path offered q fs).2 := by
  cases q with
  | emit i r report limit =>
    cases i with
    | zero => cases hq
    | succ i => exact ⟨rfl, rfl⟩
  | clear i =>
    cases i with
    | zero => cases hq
    | succ i => exact ⟨rfl, rfl⟩
  | _ => exact ⟨rfl, rfl⟩

theorem posts_crowded (path : String) : (crowded path).Posts id path 0 where
  posted := (posts_keeping path []).posted
  withdrawn := (posts_keeping path []).withdrawn

theorem same_crowded (path : String) (q : Request) (fs : Files) (hq : q.notice? 0 = none) :
    Notice.Same path fs (crowded path q fs).2 := by
  cases q with
  | acquireLock => exact ⟨rfl, rfl⟩
  | _ => exact same_keeping path [] _ fs hq

/-- A machine that keeps a notice and its lock at some paths. -/
def posting (path lockPath : String) : Live.Setup :=
  { Download.offline with emitters := [.notice path], lockPath := lockPath }

/-- A run on such a machine tends its notice. -/
theorem tended_posting {path lockPath : String} {start : Live.State}
    (spared : (Live.answer (posting path lockPath)).Spares (·.machine.files) path 0
      ((run notifying).history (Live.answer (posting path lockPath)) start) start)
    (heeded : ((run notifying).history (Live.answer (posting path lockPath)) start).Heeded 0) :
    Tended (·.machine.files) path notifying (Live.answer (posting path lockPath)) start := by
  obtain ⟨path', hpath, htended⟩ := @tended_live notifying (posting path lockPath) rfl rfl
  cases hpath
  exact htended start spared heeded

/-- A run withdraws its notice, the next one applies an upgrade, and a third finds the lock taken:
the notice is that of the second. On a machine, a run is not due, and the next one, which is told
to lock a directory, fails: the notice is that of the latter. -/
theorem notice_shows_keeping :
    (let runs := [(notifying, keeping "motd" []), (notifying, keeping "motd" [bash]),
      (notifying, crowded "motd")]
    let fs := outlast runs Files.empty
    (∃ report : Report, report.title = "Updates applied on host" ∧
      fs.read "motd" = .ok (report.fullText ++ "\n").toUTF8) ∧
      fs.read "motd.tmp" = .error .notFound) ∧
    let runs := [(notifying, Live.answer (posting "/motd" "/lock")),
      (notifying, Live.answer (posting "/motd" "/"))]
    let fs := (outlast runs marked).machine.files
    (∃ report : Report, report.title = "Update run failed on host" ∧
      fs.read "/motd" = .ok (report.fullText ++ "\n").toUTF8) ∧
      fs.read "/motd.tmp" = .error .notFound := by
  constructor
  · intro runs fs
    have attended : Attended id "motd" runs Files.empty :=
      ⟨⟨rfl, posts_keeping _ _, World.spares_of_forall (same_keeping _ _) _ _, by decide +kernel⟩,
        ⟨rfl, posts_keeping _ _, World.spares_of_forall (same_keeping _ _) _ _,
          by decide +kernel⟩,
        ⟨rfl, posts_crowded _, World.spares_of_forall (same_crowded _) _ _, by decide +kernel⟩,
        trivial⟩
    obtain ⟨hshows, hsibling⟩ := notice_shows [(notifying, keeping "motd" [])]
      [(notifying, crowded "motd")] attended (by decide +kernel) (by decide +kernel)
    obtain ⟨told, hread, -, -, -, htells⟩ := hshows.present (by decide +kernel)
    refine ⟨⟨Report.render told, htells.title.trans (by decide +kernel), hread⟩, ?_⟩
    exact hsibling (by decide +kernel) (Or.inl (by decide +kernel))
  · intro runs fs
    have attended : Attended (·.machine.files) "/motd" runs marked :=
      ⟨tended_posting (by decide +kernel) (by decide +kernel),
        tended_posting (by decide +kernel) (by decide +kernel), trivial⟩
    obtain ⟨hshows, hsibling⟩ :=
      notice_shows [(notifying, Live.answer (posting "/motd" "/lock"))] [] attended
        (by decide +kernel) (by decide +kernel)
    obtain ⟨told, hread, -, -, -, htells⟩ := hshows.present (by decide +kernel)
    refine ⟨⟨Report.render told, htells.title.trans (by decide +kernel), hread⟩, ?_⟩
    exact hsibling (by decide +kernel) (Or.inl (by decide +kernel))

end

end Run

end Upkeep
