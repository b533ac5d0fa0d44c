import Upkeep.Proofs.Run.Exclusion
import Upkeep.Proofs.Run.Gate

/-!
# What a log tells

Runs side by side leave a log, and every entry of it has its moment: what came before the entry was
all there was, and the run was about to ask for what it asks for in the entry. So what is true of
everything that can come to be is true at every entry of a log, and what is true of every event of a
single run is true of every entry, judged by the entries of that run before it.

No entry is later than the ones after it, and whoever asks for the time is told that of the entry.
The marker is that of the last entry that wrote one, as long as only runs write it.

## Main definitions

* `Traffic.stamps`: the times of the markers that were written, by whichever run.
* `Traffic.Moment`: the moment of an entry.
* `Site.Steady`: only runs write the marker.

## Main results

* `Traffic.Reachable.exists_moment`: every entry has its moment.
* `Traffic.Reachable.count_le`: no entry is later than the ones after it.
* `Traffic.Reachable.marked`: the marker is that of the last entry that wrote one.
-/

namespace Upkeep

theorem Event.stamp?_eq_some {e : Event} {m : Instant} : e.stamp? = some m ↔
    ∃ answer : Answer (Option String), answer.value = none ∧ e = ⟨.writeMarker m, answer⟩ := by
  constructor
  · intro h
    obtain ⟨q, answer⟩ := e
    cases q with
    | writeMarker time =>
      rw [stamp?] at h
      split at h
      · rename_i hvalue
        cases h
        exact ⟨answer, Option.isNone_iff_eq_none.mp hvalue, rfl⟩
      · cases h
    | _ => cases h
  · rintro ⟨answer, hvalue, rfl⟩
    rw [stamp?, hvalue]
    rfl

/-- Only runs write the marker, and the lock file is another file. -/
structure Site.Steady (site : Site) : Prop where
  /-- The marker and the lock file are apart. -/
  apart : Path.place site.markerPath ≠ Path.place site.lockPath
  /-- Whatever else is asked for, the marker is read as before. -/
  serves : ∀ q (fs : Files) answer fs' content, site.serves q fs answer fs' →
    fs.read site.markerPath = .ok content → fs'.read site.markerPath = .ok content
  /-- So it is whatever happens outside. -/
  drifts : ∀ (fs : Files) fs' content, site.drifts fs fs' →
    fs.read site.markerPath = .ok content → fs'.read site.markerPath = .ok content

namespace Traffic

variable {ι : Type}

/-- The times of the markers that were written. -/
def stamps (log : List (Entry ι)) : List Instant := log.filterMap fun entry => entry.event.stamp?

theorem stamps_append (before after : List (Entry ι)) :
    stamps (before ++ after) = stamps before ++ stamps after :=
  List.filterMap_append

/-- The last marker that was written, and where that was. -/
theorem exists_of_stamps {log : List (Entry ι)} {m : Instant}
    (h : (stamps log).getLast? = some m) : ∃ before time who answer after,
      log = before ++ ⟨time, who, ⟨.writeMarker m, answer⟩⟩ :: after ∧ answer.value = none ∧
        stamps after = [] := by
  obtain ⟨earlier, hstamps⟩ := List.getLast?_eq_some_iff.mp h
  obtain ⟨before, rest, rfl, -, hlast⟩ := List.filterMap_eq_append_iff.mp hstamps
  obtain ⟨between, ⟨time, who, event⟩, after, rfl, -, hstamp, hafter⟩ :=
    List.filterMap_eq_cons_iff.mp hlast
  obtain ⟨answer, hvalue, rfl⟩ := Event.stamp?_eq_some.mp hstamp
  exact ⟨before ++ between, time, who, answer, after, by simp, hvalue, hafter⟩

variable [DecidableEq ι] {site : Site} {settings : ι → Run.Settings} {t t' : Traffic ι}
  {entries before after : List (Entry ι)} {entry : Entry ι} {i j : ι} {m : Instant}

theorem logged_append (before after : List (Entry ι)) (i : ι) :
    logged (before ++ after) i = logged before i ++ logged after i := by
  simp [logged]

theorem mem_logged {e : Event} : e ∈ logged entries i ↔ ∃ time, ⟨time, i, e⟩ ∈ entries := by
  simp only [logged, List.mem_map, List.mem_filter, decide_eq_true_eq]
  constructor
  · rintro ⟨⟨time, who, event⟩, ⟨hmem, rfl⟩, rfl⟩
    exact ⟨time, hmem⟩
  · rintro ⟨time, hmem⟩
    exact ⟨⟨time, i, e⟩, ⟨hmem, rfl⟩, rfl⟩

/-! ### Moments -/

/-- The moment of an entry: it is about to be made. -/
structure Moment (site : Site) (settings : ι → Run.Settings) (before : List (Entry ι))
    (entry : Entry ι) (t : Traffic ι) : Prop where
  /-- It can come to this. -/
  reachable : t.Reachable site settings
  /-- What came before is all there is. -/
  log : t.log = before
  /-- It is the time of the entry. -/
  time : t.clock = entry.time
  /-- The run is about to ask. -/
  asks : ∃ next, t.left entry.who = some (.ask entry.event.request next)
  /-- The answer is one that can be given. -/
  answers : entry.event.request.phase ≠ .lock →
    ∃ fs, site.Answers t.clock entry.event.request t.contest.lock.files entry.event.answer fs

/-- A step makes no entry, or one at its moment. -/
theorem Step.log (h : t.Reachable site settings) (step : Step site t t') :
    t'.log = t.log ∨ ∃ entry, t'.log = t.log ++ [entry] ∧ Moment site settings t.log entry t := by
  cases step with
  | ticks clock later plain => exact Or.inl rfl
  | begins i self asks free => exact Or.inl rfl
  | advances i trying more => exact Or.inl rfl
  | enters i asks trying answer ended =>
    exact Or.inr ⟨_, rfl, h, rfl, rfl, ⟨_, asks⟩, fun hphase => absurd rfl hphase⟩
  | releases i asks holding answer =>
    exact Or.inr ⟨_, rfl, h, rfl, rfl, ⟨_, asks⟩, fun hphase => absurd rfl hphase⟩
  | answers i asks answer fs served =>
    exact Or.inr ⟨_, rfl, h, rfl, rfl, ⟨_, asks⟩, fun _ => ⟨fs, served⟩⟩
  | dies i => exact Or.inl rfl
  | drifts fs drift => exact Or.inl rfl

/-- **Every entry has its moment**, and what there is now came of it. -/
theorem Reachable.exists_moment (h : t.Reachable site settings)
    (hlog : t.log = before ++ entry :: after) :
    ∃ t₁, Moment site settings before entry t₁ ∧ Evolves site t₁ t := by
  obtain ⟨clock, fs, hplain, hevolves⟩ := h
  induction hevolves generalizing after with
  | refl => simp [start] at hlog
  | tail hbefore step ih =>
    have hreachable : Reachable site settings _ := ⟨clock, fs, hplain, hbefore⟩
    rcases step.log hreachable with hsame | ⟨entry', hmore, hmoment⟩
    · obtain ⟨t₁, hmoment, hevolves⟩ := ih (hsame.symm.trans hlog)
      exact ⟨t₁, hmoment, hevolves.tail step⟩
    · have heq := hmore.symm.trans hlog
      rcases List.eq_nil_or_concat after with rfl | ⟨after', last, rfl⟩
      · obtain ⟨rfl, hlast⟩ := List.append_inj' heq rfl
        cases hlast
        exact ⟨_, hmoment, .single step⟩
      · rw [List.concat_eq_append, ← List.cons_append, ← List.append_assoc] at heq
        obtain ⟨t₁, hmoment, hevolves⟩ := ih (List.append_inj' heq rfl).1
        exact ⟨t₁, hmoment, hevolves.tail step⟩

/-- **What is true of every event of a run** is true of every entry, by the entries of the run
before it. -/
theorem Moment.proper (hm : Moment site settings before entry t) {proper : History → Event → Prop}
    (hproper : ∀ h record, (Run.run (settings entry.who)).Leads h record → h.Each proper) :
    proper (logged before entry.who) entry.event := by
  obtain ⟨next, hleft⟩ := hm.asks
  have hafter := hm.reachable.inv.after entry.who _ hleft
  rw [history, hm.log] at hafter
  exact Run.proper_of_after hproper hafter entry.event.answer

/-- Whoever needs the lock in an entry holds it. -/
theorem Moment.holding (hm : Moment site settings before entry t)
    (hneeds : entry.event.request.needsLock = true) :
    ∃ self identity, t.contest.party entry.who = .holding self identity := by
  obtain ⟨next, hleft⟩ := hm.asks
  exact hm.reachable.inv.orderly.needs entry.who entry.event.request (by rw [asked, hleft]) hneeds

/-- A run that has died stays dead. -/
theorem Evolves.left (h : Evolves site t t') (hdead : t.left i = none) : t'.left i = none := by
  have hothers : ∀ {t : Traffic ι} {j : ι} {p : Program Run.Record} {left : Program Run.Record},
      t.left i = none → t.left j = some p →
        Function.update t.left j (some left) i = none := by
    intro t j p left hnone hsome
    have hne : i ≠ j := by
      rintro rfl
      cases hnone.symm.trans hsome
    rw [Function.update_of_ne hne, hnone]
  induction h with
  | refl => exact hdead
  | tail _ step ih =>
    cases step with
    | ticks clock later plain => exact ih
    | begins j self asks free => exact ih
    | advances j trying more => exact ih
    | enters j asks trying answer ended => exact hothers ih asks
    | releases j asks holding answer => exact hothers ih asks
    | answers j asks answer fs served => exact hothers ih asks
    | dies j =>
      by_cases hj : i = j
      · subst hj
        simp
      · simpa [hj] using ih
    | drifts fs drift => exact ih

/-! ### Times -/

/-- The clock goes, and is later than no entry. -/
structure Timely (t : Traffic ι) : Prop where
  /-- It is a time that a clock shows. -/
  plain : t.clock.Plain
  /-- So are those of the entries, and none of them is later. -/
  past : ∀ entry ∈ t.log, entry.time.Plain ∧ entry.time.count ≤ t.clock.count

theorem Reachable.timely (h : t.Reachable site settings) : t.Timely := by
  obtain ⟨clock, fs, hplain, hevolves⟩ := h
  have hanswered : ∀ {t : Traffic ι} {i : ι} {q : Request} {answer : Answer q.Reply}
      {next : Answer q.Reply → Program Run.Record} {c : Lock.Contest ι}, t.Timely →
        (t.answered i q answer next c).Timely := by
    intro t i q answer next c htimely
    exact ⟨htimely.plain, List.forall_mem_append.mpr ⟨htimely.past,
      List.forall_mem_singleton.mpr ⟨htimely.plain, Int.le_refl _⟩⟩⟩
  induction hevolves with
  | refl => exact ⟨hplain, by simp [start]⟩
  | tail _ step ih =>
    cases step with
    | ticks clock later plain =>
      refine ⟨plain, fun entry hentry => ?_⟩
      obtain ⟨hentryPlain, hpast⟩ := ih.past entry hentry
      exact ⟨hentryPlain, Int.le_trans hpast ((Instant.not_before_iff plain ih.plain).mp later)⟩
    | begins i self asks free => exact ⟨ih.plain, ih.past⟩
    | advances i trying more => exact ⟨ih.plain, ih.past⟩
    | enters i asks trying answer ended => exact hanswered ih
    | releases i asks holding answer => exact hanswered ih
    | answers i asks answer fs served => exact hanswered ih
    | dies i => exact ⟨ih.plain, ih.past⟩
    | drifts fs drift => exact ⟨ih.plain, ih.past⟩

/-- **No entry is later than the ones after it.** -/
theorem Reachable.count_le (h : t.Reachable site settings) (hlog : t.log = before ++ entry :: after)
    {earlier : Entry ι} (hearlier : earlier ∈ before) : earlier.time.count ≤ entry.time.count := by
  obtain ⟨t₁, hmoment, -⟩ := h.exists_moment hlog
  have hpast := hmoment.reachable.timely.past earlier (hmoment.log ▸ hearlier)
  rw [← hmoment.time]
  exact hpast.2

/-- Whoever asks for the time is told that of the entry. -/
theorem Reachable.value_now (h : t.Reachable site settings) {time : Instant}
    {answer : Answer Instant} (hmem : ⟨time, i, ⟨.now, answer⟩⟩ ∈ t.log) : answer.value = time := by
  obtain ⟨before, after, hlog⟩ := List.append_of_mem hmem
  obtain ⟨t₁, hmoment, -⟩ := h.exists_moment hlog
  obtain ⟨fs, hvalue, -⟩ := hmoment.answers (by simp [Request.phase])
  exact hvalue.trans hmoment.time

/-- A marker holds a time at which the run that wrote it has asked for the time. -/
theorem Reachable.dated (h : t.Reachable site settings) {time : Instant}
    {answer : Answer (Option String)}
    (hlog : t.log = before ++ ⟨time, i, ⟨.writeMarker m, answer⟩⟩ :: after) :
    m.Plain ∧ m.count ≤ time.count := by
  obtain ⟨t₁, hmoment, -⟩ := h.exists_moment hlog
  obtain ⟨now, hnow, rfl⟩ := hmoment.proper (fun _ _ => Run.each_dated) m rfl
  obtain ⟨time', hmem⟩ := mem_logged.mp hnow
  rw [← hmoment.log] at hmem
  obtain rfl := hmoment.reachable.value_now hmem
  obtain ⟨hplain, hpast⟩ := hmoment.reachable.timely.past _ hmem
  rw [hmoment.time] at hpast
  exact ⟨hplain, hpast⟩

/-! ### The marker -/

/-- The marker is that of the last entry that wrote one. -/
def Marked (site : Site) (t : Traffic ι) : Prop :=
  ∀ m, (stamps t.log).getLast? = some m →
    t.contest.lock.files.read site.markerPath = .ok (Marker.content m)

omit [DecidableEq ι] in
/-- What writes no marker and leaves it as it is keeps the marker that of the last entry. -/
theorem Marked.keep {e : Event} {time : Instant} {t' : Traffic ι} (marked : t.Marked site)
    (hlog : t'.log = t.log ∨ t'.log = t.log ++ [⟨time, i, e⟩]) (hstamp : e.stamp? = none)
    (hread : ∀ content, t.contest.lock.files.read site.markerPath = .ok content →
      t'.contest.lock.files.read site.markerPath = .ok content) : t'.Marked site := by
  intro m hm
  refine hread _ (marked m ?_)
  rcases hlog with hlog | hlog
  · rw [← hlog]
    exact hm
  · rw [hlog, stamps_append] at hm
    simpa [stamps, hstamp] using hm

/-- An answer that is not about the lock keeps the marker that of the last entry. -/
theorem Marked.answered (steady : site.Steady) (marked : t.Marked site) {q : Request}
    {answer : Answer q.Reply} {next : Answer q.Reply → Program Run.Record} {fs : Files}
    (served : site.Answers t.clock q t.contest.lock.files answer fs) :
    (t.answered i q answer next
      { t.contest with lock := { t.contest.lock with files := fs } }).Marked site := by
  cases q with
  | writeMarker time =>
    obtain ⟨hvalue, rfl⟩ := served
    by_cases hdone : answer.value = none
    · intro m hm
      have hstamp : Event.stamp? ⟨.writeMarker time, answer⟩ = some time :=
        Event.stamp?_eq_some.mpr ⟨answer, hdone, rfl⟩
      obtain rfl : time = m := by simpa [Traffic.answered, stamps, hstamp] using hm
      exact Files.read_publication (hvalue.mp hdone)
    · refine marked.keep (Or.inr rfl) ?_ fun content hread =>
        Files.read_of_refused hread (mt hvalue.mpr hdone)
      simpa [Event.stamp?, Option.isNone_iff_eq_none] using hdone
  | acquireLock | releaseLock => exact served.elim
  | now | readMarker =>
    obtain ⟨-, rfl⟩ := served
    exact marked.keep (Or.inr rfl) rfl fun content hread => hread
  | _ => exact marked.keep (Or.inr rfl) rfl fun content hread =>
      steady.serves _ _ _ _ content served hread

theorem Step.marked (steady : site.Steady) (step : Step site t t') (marked : t.Marked site) :
    t'.Marked site := by
  have hadvanced : ∀ {i : ι} {self : Holder} {attempt : Lock.Attempt} (content : ByteArray),
      t.contest.lock.files.read site.markerPath = .ok content →
        (t.advanced site.lockPath i self attempt).lock.files.read site.markerPath = .ok content :=
    fun content hread => (Lock.Attempt.keeps_advance _ _ _ _).read hread
      (by simpa using steady.apart)
  cases step with
  | ticks clock later plain => exact marked
  | begins i self asks free => exact marked
  | advances i trying more =>
    exact fun m hm => hadvanced _ (marked m hm)
  | enters i asks trying answer ended => exact marked.keep (Or.inr rfl) rfl hadvanced
  | releases i asks holding answer =>
    exact marked.keep (Or.inr rfl) rfl fun content hread => hread
  | answers i asks answer fs served => exact marked.answered steady served
  | dies i =>
    intro m hm
    have hfiles : (t.contest.lock.letGo (t.contest.party i).grip).files = t.contest.lock.files := by
      cases (t.contest.party i).grip <;> rfl
    exact (congrArg (·.read site.markerPath) hfiles).trans (marked m hm)
  | drifts fs drift => exact fun m hm => steady.drifts _ _ _ drift (marked m hm)

/-- **The marker is that of the last entry that wrote one.** -/
theorem Reachable.marked (steady : site.Steady) (h : t.Reachable site settings) :
    t.Marked site := by
  obtain ⟨clock, fs, -, hevolves⟩ := h
  induction hevolves with
  | refl => exact fun m hm => by simp [start, stamps] at hm
  | tail _ step ih => exact step.marked steady ih

end Traffic

end Upkeep
