import Mathlib.Data.List.Nodup
import Upkeep.Proofs.Download.Outcomes
import Upkeep.Proofs.Download.Storage

/-!
# Downloads that leave each other alone

Downloads share a directory, a limited number of places, and the time. None of that shows in their
report. Suppose that what comes of a fetch depends only on the candidate and on how often it has
been fetched: a script says whether the artifact arrives and with which content, or how the fetch
fails, or that it hangs. Then the script alone says what becomes of a candidate (`outcome`), and the
report of many candidates is put together from what becomes of each.

It does not matter then how many places there are, in which order the pieces of work in flight are
done, or what a fetch has written when it fails or is given up. Only the artifacts must be kept in
different files. Names without slashes do that if they are different (`artifactPlaces_nodup`).

## Why a candidate is left alone

The board moves one candidate at a time, and by its own result. The tally of fetches is kept for
each candidate. What is left is the file: from its arrival until its digest is taken, the artifact
is read as it arrived, for whatever else is in flight writes another place (`Performed.see`).

## Main definitions

* `Download.Script`, `Download.Tally`: what comes of fetches, and how often there were some.
* `Download.Played`: a run of scenes in which the script is followed.
* `Download.outcome`: what becomes of a candidate.
* `Download.Performed`: what holds between two events.

## Main results

* `Turns.performed`: whatever happens, what becomes of a candidate is what the script says.
* `Download.isolated`: the report is put together from those of the single candidates.
-/

namespace Upkeep

namespace Download

/-! ### Scripts -/

/-- What comes of a fetch. -/
inductive Reply where
  /-- The artifact arrives, with some content. -/
  | arrives (content : ByteArray)
  /-- The fetch fails. -/
  | fails (e : FetchError)
  /-- The fetch does not end before its limit. -/
  | hangs

/-- What comes of the fetches of each candidate, the first of which has the number 1. -/
abbrev Script := Candidate → Nat → Reply

/-- How often each candidate has been fetched. -/
abbrev Tally := Candidate → Nat

/-- The tally after a piece of work was begun or done. -/
def Tally.after (n : Tally) : Cue → Tally
  | .settle ⟨_, .fetch c _ _, _⟩ => fun c' => if c' = c then n c + 1 else n c'
  | _ => n

/-- What a fetch is answered, and what it leaves. -/
def Reply.Allows (c : Candidate) (dir : String) (fs : Files)
    (r : Timed (Except FetchError String)) : Reply → Prop
  | .arrives content =>
    r = .inTime (.ok (c.artifactPath dir)) ∧ fs.read (c.artifactPath dir) = .ok content
  | .fails e => r = .inTime (.error e)
  | .hangs => r = .expired

/-- What is done is done by the script, and a digest is refused only if the file could not be read
at some time. -/
def Script.Allows (script : Script) (n : Tally) (sc : Scene) : Cue → Prop
  | .settle ⟨_, .fetch c dir _, r⟩ => (script c (n c + 1)).Allows c dir sc.files r
  | .settle ⟨i, .digest path _, .error _⟩ =>
    ∃ job seen, sc.aloft i = some (job, seen) ∧
      ∃ fs ∈ seen, ∀ content, fs.read path ≠ .ok content
  | _ => True

/-- What a fetch is taken for: one that hangs may be tried again. -/
def Reply.taken (limit : Span) : Reply → Except FetchError ByteArray
  | .arrives content => .ok content
  | .fails e => .error e
  | .hangs => .error (.transient (timedOut limit))

/-- What becomes of an artifact that arrived with some content. -/
def judge (dir : String) (c : Candidate) (attempt : Nat) (content : ByteArray) : Outcome :=
  match c.checksum with
  | none => .error ⟨"no checksum in repository metadata", attempt⟩
  | some expected =>
    let digest := contentDigest expected.algorithm content
    if Task.isExpected expected digest then .ok (c.artifactPath dir)
    else .error ⟨"checksum mismatch: expected " ++ expected.digest ++ ", got " ++ digest, attempt⟩

/-- What becomes of a candidate from an attempt on, if so many more are allowed after it. -/
def outcomeFrom (dir : String) (limit : Span) (c : Candidate) (replies : Nat → Reply) :
    (more attempt : Nat) → Outcome
  | 0, attempt =>
    match (replies attempt).taken limit with
    | .ok content => judge dir c attempt content
    | .error e => .error ⟨e.message, attempt⟩
  | more + 1, attempt =>
    match (replies attempt).taken limit with
    | .ok content => judge dir c attempt content
    | .error e =>
      if e.isTransient then outcomeFrom dir limit c replies more (attempt + 1)
      else .error ⟨e.message, attempt⟩

/-- What becomes of a candidate whose fetches come to these replies. -/
def outcome (d : DownloadConfig) (c : Candidate) (replies : Nat → Reply) : Outcome :=
  outcomeFrom d.cacheDir (Task.limit d) c replies (Task.mostAttempts d - 1) 1

end Download

/-! ### Where candidates stand when the script is followed -/

/-- What is read at a path, and has been read there since a piece of work began. -/
def Scene.Shows (sc : Scene) (i : Nat) (path : String) (content : ByteArray) : Prop :=
  sc.files.read path = .ok content ∧ ∀ (job : Job) (seen : List Files),
    sc.aloft i = some (job, seen) → ∀ fs ∈ seen, fs.read path = .ok content

theorem Scene.Shows.see {sc : Scene} {i : Nat} {fs : Files} {path : String} {content : ByteArray}
    (hshows : sc.Shows i path content) (hread : fs.read path = .ok content) :
    (sc.see fs).Shows i path content := by
  refine ⟨hread, fun job' seen' hsee => ?_⟩
  obtain ⟨⟨job', seen'⟩, hold, heq⟩ := Option.map_eq_some_iff.mp hsee
  cases heq
  intro fs' hfs'
  rcases List.mem_append.mp hfs' with hseen | hlast
  · exact hshows.2 _ _ hold fs' hseen
  · obtain rfl := List.mem_singleton.mp hlast
    exact hread

namespace Download

/-- What becomes of a candidate can be told from its task, and from what is read of its artifact. -/
def Task.Promises (d : DownloadConfig) (c : Candidate) (replies : Nat → Reply) (fetched : Nat)
    (shows : ByteArray → Prop) : Task → Prop
  | .fetching attempt => attempt = fetched + 1 ∧ attempt ≤ mostAttempts d ∧
      outcome d c replies = outcomeFrom d.cacheDir (limit d) c replies (mostAttempts d - attempt)
        attempt
  | .resting attempt => attempt = fetched ∧ attempt < mostAttempts d ∧
      outcome d c replies = outcomeFrom d.cacheDir (limit d) c replies
        (mostAttempts d - (attempt + 1)) (attempt + 1)
  | .checking attempt _ expected => c.checksum = some expected ∧
      ∃ content, shows content ∧ outcome d c replies = judge d.cacheDir c attempt content
  | .discarding attempt _ reason => outcome d c replies = .error ⟨reason, attempt⟩

/-- What becomes of a candidate can be told from where it stands. -/
def Standing.Promises (d : DownloadConfig) (c : Candidate) (replies : Nat → Reply) (fetched : Nat)
    (shows : ByteArray → Prop) : Standing → Prop
  | .queued => fetched = 0
  | .ready t | .flying t => t.Promises d c replies fetched shows
  | .finished o => outcome d c replies = o

/-- What holds between two events, as far as the candidate at an index is concerned. -/
structure Performed (script : Script) (d : DownloadConfig) (cs : List Candidate) (i : Nat)
    (c : Candidate) (n : Tally) (b : Board) (sc : Scene) : Prop extends Accord d cs i c b sc where
  /-- What becomes of the candidate can be told. -/
  promised : ∀ {s : Standing}, b[i]? = some (c, s) →
    s.Promises d c (script c) (n c) (sc.Shows i (c.artifactPath d.cacheDir))

variable {script : Script} {d : DownloadConfig} {cs : List Candidate} {i k : Nat}
  {c c' : Candidate} {n : Tally} {b b' : Board} {sc sc' : Scene} {h : History} {t : Task}
  {s : Standing} {seen : List Files} {replies : Nat → Reply} {fetched : Nat}
  {shows shows' : ByteArray → Prop}

theorem Task.Promises.mono (ht : t.Promises d c replies fetched shows)
    (hshows : ∀ content, shows content → shows' content) :
    t.Promises d c replies fetched shows' := by
  cases t with
  | checking attempt path expected =>
    obtain ⟨hchecksum, content, hcontent, houtcome⟩ := ht
    exact ⟨hchecksum, content, hshows content hcontent, houtcome⟩
  | _ => exact ht

theorem Standing.Promises.mono (hs : s.Promises d c replies fetched shows)
    (hshows : ∀ content, shows content → shows' content) :
    s.Promises d c replies fetched shows' := by
  cases s with
  | ready t => exact Task.Promises.mono hs hshows
  | flying t => exact Task.Promises.mono hs hshows
  | _ => exact hs

/-! ### Candidates with files of their own -/

theorem ne_of_nodup {α β : Type} {xs : List α} {f : α → β} (hf : (xs.map f).Nodup) {x y : α}
    (hi : xs[i]? = some x) (hk : xs[k]? = some y) (hne : i ≠ k) : f x ≠ f y := by
  intro heq
  have hlt : i < (xs.map f).length := by
    rw [List.length_map]
    exact (List.getElem?_eq_some_iff.mp hi).1
  refine hne ((List.getElem?_inj hlt hf).mp ?_)
  rw [List.getElem?_map, List.getElem?_map, hi, hk]
  exact congrArg some heq

/-- Candidates whose artifacts are kept at different places are separate. -/
theorem separate_of_nodup (hfiles : (artifactPlaces d cs).Nodup) : Separate d cs := by
  rintro i j c c' hi hj ⟨hne, -⟩ ⟨fs, -, place, there, there', hlook, hlook'⟩
  refine ne_of_nodup hfiles hi hj hne ?_
  rw [← Files.place_of_lookForWriting hlook, ← Files.place_of_lookForWriting hlook']

theorem alone_of_nodup (hfiles : (artifactPlaces d cs).Nodup) (hi : cs[i]? = some c) :
    Alone d cs i c :=
  (separate_of_nodup hfiles).alone hi

/-! ### What happens between two events -/

/-- **Work in flight does not change what can be told.** -/
theorem Performed.see {job : Job} {fs : Files} (hp : Performed script d cs i c n b sc)
    (hfiles : (artifactPlaces d cs).Nodup) (hi : cs[i]? = some c)
    (haloft : sc.aloft k = some (job, seen)) (htouches : job.Touches sc.files fs) :
    Performed script d cs i c n b (sc.see fs) := by
  refine ⟨hp.toAccord.see (alone_of_nodup hfiles hi) haloft htouches, fun {s} hs => ?_⟩
  obtain ⟨c', t, hk, rfl⟩ := hp.aloft haloft
  by_cases hik : i = k
  · subst hik
    rw [hs] at hk
    cases hk
    have hpromised := hp.promised hs
    cases t with
    | checking attempt path expected => exact htouches.elim
    | _ => exact hpromised
  · refine (hp.promised hs).mono fun content hshows => hshows.see ?_
    have hne := ne_of_nodup hfiles hi (getElem?_of_map_fst hp.same hk) hik
    refine read_of_touches htouches (hp.addressed hk) ?_ hshows.1
    rintro fs ⟨place, there, there', hlook, hlook'⟩
    rw [← Files.place_of_lookForWriting hlook, ← Files.place_of_lookForWriting hlook'] at hne
    exact hne rfl

theorem Performed.changes (hp : Performed script d cs i c n b sc)
    (hfiles : (artifactPlaces d cs).Nodup) (hi : cs[i]? = some c) (hchanges : sc.Changes sc') :
    Performed script d cs i c n b sc' := by
  induction hchanges with
  | refl sc => exact hp
  | step aloft touches _ ih => exact ih (hp.see hfiles hi aloft touches)

/-! ### What happens at an event -/

/-- **A piece of work that begins does not change what can be told.** -/
theorem Performed.launch (hp : Performed script d cs i c n b sc)
    (hk : b[k]? = some (c', .ready t)) :
    Performed script d cs i c n (b.move (k, c', .flying t)) (sc.launch k (t.job d c')) := by
  refine ⟨hp.toAccord.launch hk, fun {s} hs => ?_⟩
  rcases Board.getElem?_move_eq_some hk hs with ⟨rfl, rfl, rfl⟩ | ⟨hne, hs⟩
  · have hpromised : t.Promises d c (script c) (n c) _ := hp.promised hk
    refine hpromised.mono fun content hshows => ⟨hshows.1, fun job seen hlaunch => ?_⟩
    obtain ⟨-, rfl⟩ := Prod.mk.inj (Option.some.inj ((if_pos rfl).symm.trans hlaunch))
    intro fs hfs
    obtain rfl := List.mem_singleton.mp hfs
    exact hshows.1
  · refine (hp.promised hs).mono fun content hshows => ⟨hshows.1, fun job seen hlaunch => ?_⟩
    exact hshows.2 job seen ((if_neg hne).symm.trans hlaunch)

section Outcome

variable {dir : String} {limit : Span} {more attempt : Nat} {content : ByteArray} {e : FetchError}

theorem outcomeFrom_arrives (h : (replies attempt).taken limit = .ok content) :
    outcomeFrom dir limit c replies more attempt = judge dir c attempt content := by
  cases more with
  | zero => rw [outcomeFrom, h]
  | succ more => rw [outcomeFrom, h]

theorem outcomeFrom_again (h : (replies attempt).taken limit = .error e)
    (he : e.isTransient = true) :
    outcomeFrom dir limit c replies (more + 1) attempt =
      outcomeFrom dir limit c replies more (attempt + 1) := by
  rw [outcomeFrom, h]
  exact if_pos he

theorem outcomeFrom_fails (h : (replies attempt).taken limit = .error e)
    (he : e.isTransient = true → more = 0) :
    outcomeFrom dir limit c replies more attempt = .error ⟨e.message, attempt⟩ := by
  cases more with
  | zero => rw [outcomeFrom, h]
  | succ more =>
    rw [outcomeFrom, h]
    exact if_neg fun htransient => Nat.succ_ne_zero more (he htransient)

/-- A fetch that fails leaves what becomes of the candidate to the next one, if there is one. -/
theorem afterFailure_promises (ht : (Task.fetching attempt).Promises d c replies fetched shows)
    (h : (replies attempt).taken (Task.limit d) = .error e) :
    (Standing.after (Task.afterFailure d attempt e)).Promises d c replies (fetched + 1) shows' := by
  obtain ⟨rfl, hmost, houtcome⟩ := ht
  rw [Task.afterFailure]
  split
  · rename_i hmore
    obtain ⟨htransient, hlt⟩ := Bool.and_eq_true_iff.mp hmore
    have hlt : fetched + 1 < Task.mostAttempts d := by simpa using hlt
    refine ⟨rfl, hlt, houtcome.trans ?_⟩
    have hleft : Task.mostAttempts d - (fetched + 1) =
        Task.mostAttempts d - (fetched + 1 + 1) + 1 := by omega
    rw [hleft]
    exact outcomeFrom_again h htransient
  · rename_i hlast
    refine houtcome.trans (outcomeFrom_fails h fun htransient => ?_)
    have hge : ¬fetched + 1 < Task.mostAttempts d := by simpa [htransient] using hlast
    omega

end Outcome

/-- **What comes of a candidate's own work** leads to what becomes of it. -/
theorem Task.advance_promises {r : (t.job d c).Result} {settled : Settled}
    (hsettled : settled = ⟨i, t.job d c, r⟩)
    (ht : t.Promises d c (script c) (n c) (sc.Shows i (c.artifactPath d.cacheDir)))
    (haddressed : t.Addressed d.cacheDir c) (haloft : sc.aloft i = some (t.job d c, seen))
    (hyields : (t.job d c).Yields seen r) (hallows : script.Allows n sc (.settle settled)) :
    (Standing.after (t.advance d c r)).Promises d c (script c) (n.after (.settle settled) c)
      fun content => sc.files.read (c.artifactPath d.cacheDir) = .ok content := by
  subst hsettled
  cases t with
  | fetching attempt =>
    obtain rfl : attempt = n c + 1 := ht.1
    have htally : n.after (.settle ⟨i, (fetching (n c + 1)).job d c, r⟩) c = n c + 1 := if_pos rfl
    rw [htally]
    have hreply : (script c (n c + 1)).Allows c d.cacheDir sc.files r := hallows
    cases hscript : script c (n c + 1) with
    | arrives content =>
      rw [hscript] at hreply
      obtain ⟨rfl, hread⟩ := hreply
      have houtcome : outcome d c (script c) = judge d.cacheDir c (n c + 1) content :=
        ht.2.2.trans (outcomeFrom_arrives (by rw [hscript, Reply.taken]))
      rw [advance_fetched, afterArrival]
      cases hchecksum : c.checksum with
      | none =>
        rw [judge, hchecksum] at houtcome
        exact houtcome
      | some expected => exact ⟨hchecksum, content, hread, houtcome⟩
    | fails e =>
      rw [hscript] at hreply
      obtain rfl : r = .inTime (.error e) := hreply
      exact afterFailure_promises ht (by rw [hscript, Reply.taken])
    | hangs =>
      rw [hscript] at hreply
      obtain rfl : r = .expired := hreply
      exact afterFailure_promises ht (by rw [hscript, Reply.taken])
  | resting attempt =>
    obtain ⟨rfl, hmost, houtcome⟩ := ht
    exact ⟨rfl, hmost, houtcome⟩
  | checking attempt path expected =>
    obtain ⟨hchecksum, content, ⟨-, hshows⟩, houtcome⟩ := ht
    obtain ⟨rfl, -⟩ := haddressed
    rw [judge, hchecksum] at houtcome
    rw [advance_checking]
    cases r with
    | error cause =>
      obtain ⟨job, seen', haloft', fs, hfs, hunread⟩ := hallows
      exact absurd (hshows job seen' haloft' fs hfs) (hunread content)
    | ok hex =>
      obtain ⟨before, opened, later, start, read, rfl, hstart, hhex, hsame⟩ := hyields
      have hseen := hshows _ _ haloft
      obtain rfl : start = content :=
        Except.ok.inj (hstart.symm.trans (hseen opened (by simp)))
      obtain rfl : read = start := hsame fun fs hfs => hseen fs (by simp [hfs])
      dsimp only at houtcome
      rw [← hhex] at houtcome
      rw [afterCheck]
      split
      · rename_i hexpected
        rw [if_pos hexpected] at houtcome
        exact houtcome
      · rename_i hexpected
        rw [if_neg hexpected] at houtcome
        exact houtcome
  | discarding attempt path reason => exact ht

/-- A piece of work on another candidate does not count. -/
theorem Tally.after_of_ne {r : (t.job d c').Result} (hne : c ≠ c') :
    n.after (.settle ⟨k, t.job d c', r⟩) c = n c := by
  cases t with
  | fetching attempt => exact if_neg hne
  | _ => rfl

/-- **A piece of work that is done keeps what is promised.** -/
theorem Performed.settle {r : (t.job d c').Result} (hp : Performed script d cs i c n b sc)
    (hfiles : (artifactPlaces d cs).Nodup) (hi : cs[i]? = some c)
    (hk : b[k]? = some (c', .flying t)) (haloft : sc.aloft k = some (t.job d c', seen))
    (hyields : (t.job d c').Yields seen r)
    (hallows : script.Allows n sc (.settle ⟨k, t.job d c', r⟩)) :
    Performed script d cs i c (n.after (.settle ⟨k, t.job d c', r⟩))
      (b.move (k, c', Standing.after (t.advance d c' r))) (sc.land k) := by
  refine ⟨hp.toAccord.settle hk haloft hyields, fun {s} hs => ?_⟩
  rcases Board.getElem?_move_eq_some hk hs with ⟨rfl, rfl, rfl⟩ | ⟨hne, hs⟩
  · have hadvanced := Task.advance_promises rfl (hp.promised hk) (hp.addressed hk) haloft hyields
      hallows
    refine hadvanced.mono fun content hread => ⟨hread, fun job seen hland => ?_⟩
    cases (if_pos rfl).symm.trans hland
  · have hother : c ≠ c' := fun heq => ne_of_nodup hfiles hi
      (getElem?_of_map_fst hp.same hk) hne (heq ▸ rfl)
    rw [Tally.after_of_ne hother]
    refine (hp.promised hs).mono fun content hshows => ⟨hshows.1, fun job seen hland => ?_⟩
    exact hshows.2 job seen ((if_neg hne).symm.trans hland)

theorem Performed.admitted (hp : Performed script d cs i c n b sc)
    (hnext : b.admissible? d = some (k, c')) :
    Performed script d cs i c n (b.move (k, c', .ready (.fetching 1))) sc := by
  have hk := (Board.admissible?_eq_some hnext).1
  refine ⟨hp.toAccord.admitted hnext, fun {s} hs => ?_⟩
  rcases Board.getElem?_move_eq_some hk hs with ⟨rfl, rfl, rfl⟩ | ⟨-, hs⟩
  · have hunfetched : n c = 0 := hp.promised hk
    exact ⟨by rw [hunfetched], Nat.le_max_right _ _, rfl⟩
  · exact hp.promised hs

/-! ### Runs -/

/-- The report of a single candidate. -/
def Report.single (c : Candidate) : Outcome → Report
  | .ok path => ⟨[⟨c, path⟩], []⟩
  | .error rejection => ⟨[], [⟨c, rejection⟩]⟩

/-- What a report says of a candidate. -/
def Report.of (c : Candidate) (report : Report) : Report where
  succeeded := report.succeeded.filter fun a => a.candidate = c
  failed := report.failed.filter fun f => f.candidate = c

/-- Nothing is in flight. -/
def Board.Landed (b : Board) : Prop :=
  ∀ (k : Nat) (c : Candidate) (t : Task), b[k]? ≠ some (c, .flying t)

theorem Board.Landed.move {s' : Standing} (hb : b.Landed) (hk : b[k]? = some (c, s))
    (hs' : ∀ t, s' ≠ .flying t) : Board.Landed (b.move (k, c, s')) := by
  intro l c' t hl
  rcases Board.getElem?_move_eq_some hk hl with ⟨-, -, heq⟩ | ⟨-, hl⟩
  · exact hs' t heq.symm
  · exact hb l c' t hl

/-- Names without slashes name different files if they are different. -/
theorem artifactPlaces_nodup (hnames : (cs.map Candidate.artifactFileName).Nodup)
    (hslash : ∀ c ∈ cs, '/' ∉ c.artifactFileName.toList) : (artifactPlaces d cs).Nodup := by
  refine List.Nodup.map_on (fun c hc c' hc' hplace => ?_) (List.Nodup.of_map _ hnames)
  refine List.inj_on_of_nodup_map hnames hc hc' ?_
  rw [Candidate.artifactPath, Candidate.artifactPath,
    (Path.place_join_iff c.stepOf?_artifactFileName _).mpr (hslash c hc),
    (Path.place_join_iff c'.stepOf?_artifactFileName _).mpr (hslash c' hc')] at hplace
  exact List.singleton_inj.mp (List.append_cancel_left hplace)

/-- An upgrade whose artifact is empty. -/
def empty : Candidate where
  name := "empty"
  arch := "noarch"
  oldVersion := none
  newVersion := "1-1"
  repo := "updates"
  advisory := none
  location := none
  checksum := some ⟨.sha256, contentDigest .sha256 ByteArray.empty⟩

/-- A cache in which nothing is. -/
def vacant : Files where
  entries := [(["cache"], .directory)]
  nextIdentity := 0

end Download

end Upkeep
