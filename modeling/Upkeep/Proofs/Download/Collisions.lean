import Upkeep.Proofs.Download.Integrity
import Upkeep.Proofs.Run.Phases

/-!
# Downloads that get in each other's way

Where two candidates clash, an artifact that was checked does not have to be intact when the
downloads are over. One schedule shows it for every such pair: the fetch of the other candidate is
in flight while the artifact is fetched and checked, and writes its file afterwards. That fetch may
fail then; nobody looks at the artifact again.

The schedule is made of answers. Each of them is one that the world may give, so there is a history
with just these answers, and turn by turn the board and the scene are what they are meant to be.

## Main definitions

* `Collision`: a pair of candidates with files in which their artifacts collide.
* `Collision.Scripted`, `Collision.Staged`: how the world answers, and where that leads.

## Main results

* `Collision.exists_film`: downloads in which the artifact of a collision is spoilt.
* `reliable_iff`: downloads are reliable if and only if their candidates are separate.
* `not_reliable_of_artifactFileName_eq`: two candidates of one file are not downloaded reliably.
-/

namespace Upkeep.Download

/-- Two candidates whose artifacts get in each other's way: the artifact of the one is intact
until the path of the other is written, and the work on the other may outlast its own. -/
structure Collision (d : DownloadConfig) (cs : List Candidate) where
  /-- The index of the candidate. -/
  index : Nat
  /-- The index of the other candidate. -/
  other : Nat
  /-- The candidate. -/
  candidate : Candidate
  /-- The other candidate. -/
  rival : Candidate
  /-- What the artifact must digest to. -/
  expected : Checksum
  /-- The files with an artifact that is intact. -/
  files : Files
  /-- What is read from the artifact then. -/
  content : ByteArray
  /-- The files with an artifact that is not. -/
  spoilt : Files
  candidate_eq : cs[index]? = some candidate
  rival_eq : cs[other]? = some rival
  outlasts : Outlasts d index other
  checksum : candidate.checksum = some expected
  read : files.read (candidate.artifactPath d.cacheDir) = .ok content
  isExpected : Task.isExpected expected (contentDigest expected.algorithm content) = true
  writes : files.Writes (rival.artifactPath d.cacheDir) spoilt
  not_intact : ¬spoilt.Intact (candidate.artifactPath d.cacheDir) candidate

namespace Collision

variable {d : DownloadConfig} {cs : List Candidate} (x : Collision d cs)

/-- Where the artifact is. -/
def path : String := x.candidate.artifactPath d.cacheDir

/-! ### The script -/

/-- What comes of a piece of work when it begins: the artifact arrives and has the digest it must
have, the fetch of the other candidate is in flight, and all others are refused. -/
def script (k : Nat) : (job : Job) → Option job.Result
  | .fetch .. =>
    if k = x.other then none
    else if k = x.index then some (.inTime (.ok x.path))
    else some (.inTime (.error (.permanent "")))
  | .digest .. => some (.ok (contentDigest x.expected.algorithm x.content))
  | .rest _ | .discard _ => some ()

/-- What comes of a piece of work that is waited for: nothing. -/
def refused : (job : Job) → job.Result
  | .fetch .. => .inTime (.error (.permanent ""))
  | .digest .. => .error ""
  | .rest _ | .discard _ => ()

/-- The world answers by the script. -/
def Scripted : Event → Prop
  | ⟨.begin k job, answer⟩ => answer.value = x.script k job
  | ⟨.await first rest, answer⟩ =>
    (Landing.settled first rest answer.value).result =
      refused (Landing.settled first rest answer.value).job
  | _ => True

theorem exists_scripted {q : Request} (hq : q.phase = .download) :
    ∃ answer, x.Scripted ⟨q, answer⟩ := by
  cases q with
  | begin k job => exact ⟨⟨x.script k job, false, false⟩, rfl⟩
  | await first rest =>
    cases rest with
    | nil => exact ⟨⟨refused first.2, false, false⟩, rfl⟩
    | cons next rest => exact ⟨⟨.inl (refused first.2), false, false⟩, rfl⟩
  | _ => cases hq

/-! ### Where the script leads -/

/-- Where a candidate can stand then. -/
def Planned (k : Nat) : Standing → Prop
  | .queued | .ready (.fetching _) => True
  | .ready (.checking _ path expected) => k = x.index ∧ path = x.path ∧ expected = x.expected
  | .flying (.fetching _) => k = x.other
  | .finished (.ok path) => k = x.index ∧ path = x.path
  | .finished (.error _) => k ≠ x.index
  | _ => False

/-- What the board and the scene look like: the fetch of the other candidate has not begun, or is
in flight, or has spoilt the artifact that has been checked by then. -/
inductive Staged : Board → Scene → Prop
  /-- It has not begun. -/
  | early {b : Board} {s : Standing} (rival : b[x.other]? = some (x.rival, s))
      (unbegun : s = .queued ∨ ∃ t, s = .ready t) : Staged b (.still x.files)
  /-- It is in flight. -/
  | aloft {b : Board} {t : Task} (rival : b[x.other]? = some (x.rival, .flying t)) :
      Staged b ((Scene.still x.files).launch x.other (t.job d x.rival))
  /-- It is over. -/
  | late {b : Board} {outcome : Outcome} (rival : b[x.other]? = some (x.rival, .finished outcome))
      (checked : b[x.index]? = some (x.candidate, .finished (.ok x.path))) :
      Staged b (.still x.spoilt)

/-- What holds between two turns. -/
structure Holds (b : Board) (sc : Scene) : Prop where
  /-- The board is about these candidates. -/
  same : b.map Prod.fst = cs
  /-- Where there is one place, the candidates are done one by one. -/
  orderly : b.Orderly d
  /-- Everyone stands where he is meant to. -/
  planned : ∀ {k : Nat} {c : Candidate} {s : Standing}, b[k]? = some (c, s) → x.Planned k s
  /-- The scene is what it is meant to be. -/
  staged : x.Staged b sc

variable {x} {b b' : Board} {sc : Scene} {h : History}

theorem Holds.candidate_eq (hb : x.Holds b sc) {c : Candidate} {s : Standing}
    (hi : b[x.index]? = some (c, s)) : c = x.candidate := by
  have hc := getElem?_of_map_fst hb.same hi
  rw [x.candidate_eq] at hc
  exact (Option.some.inj hc).symm

theorem Holds.rival_eq (hb : x.Holds b sc) {c : Candidate} {s : Standing}
    (hj : b[x.other]? = some (c, s)) : c = x.rival := by
  have hc := getElem?_of_map_fst hb.same hj
  rw [x.rival_eq] at hc
  exact (Option.some.inj hc).symm

/-- While the fetch of the other candidate has not begun, nothing has happened. -/
theorem Staged.eq_still (hs : x.Staged b sc) {c : Candidate} {s : Standing}
    (hj : b[x.other]? = some (c, s)) (hwaits : s = .queued ∨ ∃ t, s = .ready t) :
    sc = .still x.files := by
  cases hs with
  | early rival unbegun => rfl
  | aloft rival =>
    rw [hj] at rival
    cases rival
    simp at hwaits
  | late rival checked =>
    rw [hj] at rival
    cases rival
    simp at hwaits

/-- While it is in flight, nothing else is. -/
theorem Staged.eq_launch (hs : x.Staged b sc) {c : Candidate} {t : Task}
    (hj : b[x.other]? = some (c, .flying t)) :
    sc = (Scene.still x.files).launch x.other (t.job d c) := by
  cases hs with
  | early rival unbegun =>
    rw [hj] at rival
    cases rival
    simp at unbegun
  | aloft rival =>
    rw [hj] at rival
    cases rival
    rfl
  | late rival checked =>
    rw [hj] at rival
    cases rival

/-- Nothing else is in flight. -/
theorem Staged.aloft_eq_none (hs : x.Staged b sc) {k : Nat} (hk : k ≠ x.other) :
    sc.aloft k = none := by
  cases hs with
  | early rival unbegun => rfl
  | aloft rival => simp [Scene.launch, Scene.still, hk]
  | late rival checked => rfl

/-- While the artifact has not been checked, the files are what they were. -/
theorem Staged.files_eq (hs : x.Staged b sc) {c : Candidate} {s : Standing}
    (hi : b[x.index]? = some (c, s)) (hopen : ∀ outcome, s ≠ .finished outcome) :
    sc.files = x.files := by
  cases hs with
  | early rival unbegun => rfl
  | aloft rival => rfl
  | late rival checked =>
    rw [checked] at hi
    cases hi
    exact absurd rfl (hopen _)

/-- Whoever is neither the other candidate nor done with the artifact may go on. -/
theorem Staged.move (hs : x.Staged b sc) {k : Nat} {c : Candidate} {s : Standing}
    (hk : b[k]? = some (c, s)) (hopen : ∀ outcome, s ≠ .finished outcome) (hother : k ≠ x.other)
    (s' : Standing) : x.Staged (b.move (k, c, s')) sc := by
  have hrival : (b.move (k, c, s'))[x.other]? = b[x.other]? := by
    rw [Board.getElem?_move hk, if_neg hother]
  cases hs with
  | early rival unbegun => exact .early (hrival.trans rival) unbegun
  | aloft rival => exact .aloft (hrival.trans rival)
  | late rival checked =>
    refine .late (hrival.trans rival) ?_
    rw [Board.getElem?_move hk, if_neg, checked]
    rintro rfl
    rw [hk] at checked
    cases checked
    exact hopen _ rfl

theorem Holds.move (hb : x.Holds b sc) {k : Nat} {c : Candidate} {s s' : Standing}
    (hk : b[k]? = some (c, s)) (hopen : ∀ outcome, s ≠ .finished outcome) (hother : k ≠ x.other)
    (horderly : (b.move (k, c, s')).Orderly d) (hplanned : x.Planned k s') :
    x.Holds (b.move (k, c, s')) sc where
  same := (Board.map_fst_move hk).trans hb.same
  orderly := horderly
  planned := by
    intro l c' s'' hl
    rcases Board.getElem?_move_eq_some hk hl with ⟨rfl, rfl, rfl⟩ | ⟨-, hl⟩
    · exact hplanned
    · exact hb.planned hl
  staged := hb.staged.move hk hopen hother s'

/-- **What is done at once** leaves everyone where he is meant to stand, and the scene as it is. -/
theorem Holds.advance (hb : x.Holds b sc) {k : Nat} {c : Candidate} {t : Task}
    {r : (t.job d c).Result} (hk : b[k]? = some (c, .ready t))
    (hscript : some r = x.script k (t.job d c)) :
    Filmed sc [.launch k (t.job d c), .settle ⟨k, t.job d c, r⟩] sc ∧
      x.Holds (b.move (k, c, Standing.after (t.advance d c r))) sc := by
  have hplanned := hb.planned hk
  cases t with
  | fetching attempt =>
    have hother : k ≠ x.other := by
      intro heq
      have hnone : x.script k ((Task.fetching attempt).job d c) = none := if_pos heq
      rw [hnone] at hscript
      cases hscript
    have hnone := hb.staged.aloft_eq_none hother
    by_cases hindex : k = x.index
    · subst hindex
      have harrives : x.script x.index ((Task.fetching attempt).job d c) =
          some (.inTime (.ok x.path)) := (if_neg hother).trans (if_pos rfl)
      obtain rfl : r = .inTime (.ok x.path) := Option.some.inj (hscript.trans harrives)
      obtain rfl : c = x.candidate := hb.candidate_eq hk
      refine ⟨filmed_instant hnone rfl, ?_⟩
      refine hb.move hk (by simp) hother (hb.orderly.move hk rfl _) ?_
      rw [Task.advance_fetched, Task.afterArrival, x.checksum]
      exact ⟨rfl, rfl, rfl⟩
    · have hrefused : x.script k ((Task.fetching attempt).job d c) =
          some (.inTime (.error (.permanent ""))) := (if_neg hother).trans (if_neg hindex)
      obtain rfl : r = .inTime (.error (.permanent "")) := Option.some.inj (hscript.trans hrefused)
      refine ⟨filmed_instant hnone trivial, ?_⟩
      exact hb.move hk (by simp) hother (hb.orderly.move hk rfl _) hindex
  | resting attempt => exact hplanned.elim
  | checking attempt path expected =>
    obtain ⟨rfl, rfl, rfl⟩ := hplanned
    have hother : x.index ≠ x.other := x.outlasts.1
    obtain rfl : c = x.candidate := hb.candidate_eq hk
    cases r with
    | error cause => cases hscript
    | ok hex =>
      have hhex : hex = contentDigest x.expected.algorithm x.content :=
        Except.ok.inj (Option.some.inj hscript)
      have hdigests : Job.Digests [sc.files] x.path x.expected.algorithm hex := by
        rw [hb.staged.files_eq hk (by simp)]
        exact ⟨[], x.files, [], x.content, x.content, rfl, x.read, hhex, fun _ => rfl⟩
      refine ⟨filmed_instant (hb.staged.aloft_eq_none hother) hdigests, ?_⟩
      refine hb.move hk (by simp) hother (hb.orderly.move hk rfl _) ?_
      have hpassed : Task.afterCheck attempt x.path x.expected (.ok hex) =
          .finished (.ok x.path) := if_pos (hhex ▸ x.isExpected)
      show x.Planned x.index (Standing.after (Task.afterCheck attempt x.path x.expected (.ok hex)))
      rw [hpassed]
      exact ⟨rfl, rfl⟩
  | discarding attempt path reason => exact hplanned.elim

/-- **What is begun and not done at once** is the fetch of the other candidate. -/
theorem Holds.launch (hb : x.Holds b sc) {k : Nat} {c : Candidate} {t : Task}
    (hk : b[k]? = some (c, .ready t)) (hscript : none = x.script k (t.job d c)) :
    x.Holds (b.move (k, c, .flying t)) (sc.launch k (t.job d c)) := by
  have hplanned := hb.planned hk
  cases t with
  | fetching attempt =>
    have hother : k = x.other := by
      refine Decidable.byContradiction fun hne => ?_
      have hsome : x.script k ((Task.fetching attempt).job d c) =
          if k = x.index then some (.inTime (.ok x.path))
          else some (.inTime (.error (.permanent ""))) := if_neg hne
      rw [hsome] at hscript
      split at hscript
      · cases hscript
      · cases hscript
    subst hother
    obtain rfl : c = x.rival := hb.rival_eq hk
    obtain rfl := hb.staged.eq_still hk (Or.inr ⟨_, rfl⟩)
    refine ⟨(Board.map_fst_move hk).trans hb.same, hb.orderly.move hk rfl _, ?_,
      .aloft (Board.getElem?_move_self hk _)⟩
    intro l c s hl
    rcases Board.getElem?_move_eq_some hk hl with ⟨rfl, rfl, rfl⟩ | ⟨-, hl⟩
    · exact rfl
    · exact hb.planned hl
  | resting attempt => exact hplanned.elim
  | checking attempt path expected => cases hscript
  | discarding attempt path reason => exact hplanned.elim

/-- The other candidate is the only one that holds a place while nothing is due. -/
theorem Holds.active_le_one (hb : x.Holds b sc) (hdue : b.due? = none) : b.active ≤ 1 := by
  refine Board.active_le_one fun k c s hk hactive => (?_ : k = x.other)
  have hplanned := hb.planned hk
  cases s with
  | queued => cases hactive
  | ready t => exact absurd hk (Board.due?_eq_none hdue)
  | flying t =>
    cases t with
    | fetching attempt => exact hplanned
    | resting attempt => exact hplanned.elim
    | checking attempt path expected => exact hplanned.elim
    | discarding attempt path reason => exact hplanned.elim
  | finished outcome => cases hactive

/-- While the fetch of the other candidate is waited for, the artifact has been checked. -/
theorem Holds.checked (hb : x.Holds b sc) (hdue : b.due? = none) (hnext : b.admissible? d = none)
    {t : Task} (hother : b[x.other]? = some (x.rival, .flying t)) :
    b[x.index]? = some (x.candidate, .finished (.ok x.path)) := by
  obtain ⟨s, hi⟩ := exists_getElem?_of_map_fst hb.same x.candidate_eq
  have hplanned := hb.planned hi
  match s, hplanned with
  | .queued, _ =>
    have hplace : ¬b.active < Board.places d := by
      intro hplace
      rw [Board.admissible?, if_pos hplace] at hnext
      exact Board.queued?_eq_none hnext hi
    have hone : Board.places d = 1 := by
      have hheld := hb.active_le_one hdue
      have hleast : 1 ≤ Board.places d := Nat.le_max_right _ _
      omega
    have hlt : x.index < x.other := x.outlasts.2.resolve_right (by omega)
    obtain ⟨c, outcome, hfinished⟩ := hb.orderly hone _ _ _ _ hlt hother (by simp)
    rw [hi] at hfinished
    cases hfinished
  | .ready t, _ => exact absurd hi (Board.due?_eq_none hdue)
  | .flying (.fetching _), hindex => exact absurd hindex x.outlasts.1
  | .finished (.ok _), hfinished =>
    rw [hi, hfinished.2]
  | .finished (.error _), hindex => exact absurd rfl hindex

/-- **What is landed** is the fetch of the other candidate, and it has spoilt the artifact. -/
theorem Holds.land (hb : x.Holds b sc) (hdue : b.due? = none) (hnext : b.admissible? d = none)
    {k : Nat} {c : Candidate} {t : Task} {r : (t.job d c).Result}
    (hk : b[k]? = some (c, .flying t)) (hrefused : r = refused (t.job d c)) :
    Filmed sc [.settle ⟨k, t.job d c, r⟩] (.still x.spoilt) ∧
      x.Holds (b.move (k, c, Standing.after (t.advance d c r))) (.still x.spoilt) := by
  have hplanned := hb.planned hk
  cases t with
  | fetching attempt =>
    obtain rfl : k = x.other := hplanned
    obtain rfl : r = .inTime (.error (.permanent "")) := hrefused
    obtain rfl : c = x.rival := hb.rival_eq hk
    have hchecked := hb.checked hdue hnext hk
    obtain ⟨rejection, hmove⟩ : ∃ rejection, Standing.after ((Task.fetching attempt).advance d
        x.rival (.inTime (.error (.permanent "")))) = .finished (.error rejection) := ⟨_, rfl⟩
    rw [hmove]
    obtain rfl := hb.staged.eq_launch hk
    refine ⟨filmed_touching (Or.inr x.writes) trivial, (Board.map_fst_move hk).trans hb.same,
      hb.orderly.move hk rfl _, ?_, .late (Board.getElem?_move_self hk _) ?_⟩
    · intro l c s hl
      rcases Board.getElem?_move_eq_some hk hl with ⟨rfl, rfl, rfl⟩ | ⟨-, hl⟩
      · exact Ne.symm x.outlasts.1
      · exact hb.planned hl
    · rw [Board.getElem?_move hk, if_neg (Ne.symm x.outlasts.1), hchecked]
  | resting attempt => exact hplanned.elim
  | checking attempt path expected => exact hplanned.elim
  | discarding attempt path reason => exact hplanned.elim

theorem Holds.admitted (hb : x.Holds b sc) {k : Nat} {c : Candidate}
    (hnext : b.admissible? d = some (k, c)) :
    x.Holds (b.move (k, c, .ready (.fetching 1))) sc := by
  have hk := (Board.admissible?_eq_some hnext).1
  by_cases hother : k = x.other
  · subst hother
    obtain rfl : c = x.rival := hb.rival_eq hk
    obtain rfl := hb.staged.eq_still hk (Or.inl rfl)
    refine ⟨(Board.map_fst_move hk).trans hb.same, hb.orderly.admitted hnext _, ?_,
      .early (Board.getElem?_move_self hk _) (Or.inr ⟨_, rfl⟩)⟩
    intro l c s hl
    rcases Board.getElem?_move_eq_some hk hl with ⟨rfl, rfl, rfl⟩ | ⟨-, hl⟩
    · exact trivial
    · exact hb.planned hl
  · exact hb.move hk (by simp) hother (hb.orderly.admitted hnext _) trivial

/-- **A turn that goes by the script** leads where it is meant to lead. -/
theorem Holds.turn (hb : x.Holds b sc) (ht : Turn d b h b') (hscript : ∀ e ∈ h, x.Scripted e) :
    ∃ sc', Filmed sc h.cues sc' ∧ x.Holds b' sc' := by
  cases ht with
  | launched due answer aloft =>
    rename_i f
    have hanswer : answer.value = x.script f.index (f.task.job d f.candidate) :=
      hscript _ (List.mem_singleton.mpr rfl)
    rw [History.cues_of_aloft aloft]
    exact ⟨_, ⟨sc, _, .refl sc, .launched sc _ _, .refl _⟩,
      hb.launch (Board.due?_eq_some due) (aloft ▸ hanswer)⟩
  | instant due answer done =>
    rename_i f r
    have hanswer : answer.value = x.script f.index (f.task.job d f.candidate) :=
      hscript _ (List.mem_singleton.mpr rfl)
    rw [History.cues_of_done done]
    exact ⟨sc, hb.advance (Board.due?_eq_some due) (done ▸ hanswer)⟩
  | admitted due next => exact ⟨sc, .refl sc, hb.admitted next⟩
  | landed due next flights answer flying done =>
    rename_i first rest f r
    have hrefused := hscript _ (List.mem_singleton.mpr rfl)
    rw [Scripted, done] at hrefused
    have hcues : History.cues [⟨.await (first.piece d) (rest.map (Flight.piece d)), answer⟩] =
        [.settle (Landing.settled _ _ answer.value)] := rfl
    rw [hcues, done]
    exact ⟨_, hb.land due next (Board.mem_flights.mp flying) hrefused⟩

/-- Before anything has begun, everyone stands where he is meant to. -/
theorem holds_start (x : Collision d cs) : x.Holds (Board.start cs) (.still x.files) := by
  have hrival : (Board.start cs)[x.other]? = some (x.rival, .queued) := by
    rw [Board.start, List.getElem?_map, x.rival_eq]
    rfl
  refine ⟨Board.map_fst_start cs, Board.orderly_start cs, ?_, .early hrival (Or.inl rfl)⟩
  intro k c s hk
  rw [Board.eq_queued_of_start hk]
  exact trivial

/-- **Downloads in which an artifact is spoilt.** It is in the report, and it is not intact. -/
theorem exists_film (x : Collision d cs) :
    ∃ (h : History) (report : Report), (all d cs).Leads h report ∧
      Filmed (.still x.files) h.cues (.still x.spoilt) ∧
        ⟨x.candidate, x.path⟩ ∈ report.succeeded := by
  obtain ⟨h, report, hl, hscript⟩ :=
    (keeps_all d cs).exists_leads fun q hq => x.exists_scripted hq
  obtain ⟨b, hturns, hfinished, -, rfl⟩ := leads_all hl
  have hholds : (∀ e ∈ h, x.Scripted e) →
      ∃ sc, Filmed (.still x.files) h.cues sc ∧ x.Holds b sc := by
    refine hturns.preserves (fun h b => (∀ e ∈ h, x.Scripted e) →
      ∃ sc, Filmed (.still x.files) h.cues sc ∧ x.Holds b sc) ?_ []
        fun _ => ⟨_, .refl _, x.holds_start⟩
    intro h₀ b h b' hturn hb hscript
    obtain ⟨hscript₀, hscript⟩ := List.forall_mem_append.mp hscript
    obtain ⟨sc, hfilm, hholds⟩ := hb hscript₀
    obtain ⟨sc', hfilm', hholds'⟩ := hholds.turn hturn hscript
    refine ⟨sc', ?_, hholds'⟩
    rw [History.cues_append]
    exact filmed_append.mpr ⟨sc, hfilm, hfilm'⟩
  obtain ⟨sc, hfilm, hholds⟩ := hholds hscript
  refine ⟨h, _, hl, ?_⟩
  cases hholds.staged with
  | early rival unbegun =>
    obtain ⟨outcome, houtcome⟩ := hfinished _ (List.mem_of_getElem? rival)
    rcases unbegun with rfl | ⟨t, rfl⟩
    · cases houtcome
    · cases houtcome
  | aloft rival =>
    obtain ⟨outcome, houtcome⟩ := hfinished _ (List.mem_of_getElem? rival)
    cases houtcome
  | late rival checked =>
    exact ⟨hfilm, List.mem_filterMap.mpr ⟨_, List.mem_of_getElem? checked, rfl⟩⟩

end Collision

/-! ### Clashes -/

/-- No digest is that of all files. -/
theorem exists_unexpected (expected : Checksum) :
    ∃ content, Task.isExpected expected (contentDigest expected.algorithm content) = false := by
  obtain ⟨algorithm, digest⟩ := expected
  have hdiffer : Text.lowerAscii (contentDigest algorithm ⟨#[]⟩) ≠
      Text.lowerAscii (contentDigest algorithm ⟨#[0]⟩) := by
    cases algorithm <;> decide +kernel
  by_cases hempty : Text.lowerAscii (contentDigest algorithm ⟨#[]⟩) = Text.lowerAscii digest
  · exact ⟨⟨#[0]⟩, beq_false_of_ne fun heq => hdiffer (hempty.trans heq.symm)⟩
  · exact ⟨⟨#[]⟩, beq_false_of_ne hempty⟩

variable {d : DownloadConfig} {cs : List Candidate}

/-- Candidates that clash are a collision. -/
theorem Clash.collision {i j : Nat} {c c' : Candidate} (h : Clash d.cacheDir c c')
    (hi : cs[i]? = some c) (hj : cs[j]? = some c') (houtlasts : Outlasts d i j) :
    ∃ x : Collision d cs, x.candidate = c := by
  obtain ⟨fs, hintact, hsame⟩ := h
  obtain ⟨expected, content, hchecksum, hread, hexpected⟩ := Files.intact_iff.mp hintact
  obtain ⟨bytes, hunexpected⟩ := exists_unexpected expected
  obtain ⟨spoilt, hwrites, hspoilt, -⟩ := hsame.fill bytes
  have hnot : ¬spoilt.Intact (c.artifactPath d.cacheDir) c := by
    intro hintact
    obtain ⟨expected', content', hchecksum', hread', hexpected'⟩ := Files.intact_iff.mp hintact
    obtain rfl := Option.some.inj (hchecksum.symm.trans hchecksum')
    obtain rfl := Except.ok.inj (hspoilt.symm.trans hread')
    rw [hunexpected] at hexpected'
    cases hexpected'
  exact ⟨⟨i, j, c, c', expected, fs, content, spoilt, hi, hj, houtlasts, hchecksum, hread,
    hexpected, hwrites, hnot⟩, rfl⟩

/-- **Only downloads of separate candidates are reliable.** -/
theorem separate_of_reliable (h : Reliable d cs) : Separate d cs := by
  intro i j c c' hi hj houtlasts hclash
  obtain ⟨x, -⟩ := hclash.collision hi hj houtlasts
  obtain ⟨history, report, hl, hfilm, hreported⟩ := x.exists_film
  exact x.not_intact (h history report x.files _ hl hfilm _ hreported)

/-- **Downloads are reliable if and only if their candidates are separate.** -/
theorem reliable_iff : Reliable d cs ↔ Separate d cs :=
  ⟨separate_of_reliable, reliable_of_separate⟩

/-- **A candidate is followed by another one of its artifact's name:** the downloads are not
reliable, however many of them run side by side. -/
theorem not_reliable_of_artifactFileName_eq {c c' : Candidate} {fs : Files}
    (hcs : [c, c'].Sublist cs) (hname : c.artifactFileName = c'.artifactFileName)
    (hintact : fs.Intact (c.artifactPath d.cacheDir) c) : ¬Reliable d cs := by
  intro hreliable
  obtain ⟨front, back, rfl, hfront, hback⟩ := List.cons_sublist_iff.mp hcs
  obtain ⟨i, hi⟩ := List.mem_iff_getElem?.mp hfront
  obtain ⟨j, hj⟩ := List.mem_iff_getElem?.mp (List.singleton_sublist.mp hback)
  obtain ⟨hlt, -⟩ := List.getElem?_eq_some_iff.mp hi
  have hi' : (front ++ back)[i]? = some c := by rw [List.getElem?_append_left hlt, hi]
  have hj' : (front ++ back)[front.length + j]? = some c' := by
    rw [List.getElem?_append_right (Nat.le_add_right _ _), Nat.add_sub_cancel_left, hj]
  have houtlasts : Outlasts d i (front.length + j) := ⟨by omega, Or.inl (by omega)⟩
  have hsame : fs.SameFile (c.artifactPath d.cacheDir) (c'.artifactPath d.cacheDir) := by
    obtain ⟨expected, content, -, hread, -⟩ := Files.intact_iff.mp hintact
    obtain ⟨identity, hlook⟩ := Files.lookForWriting_of_read hread
    have hpath : c'.artifactPath d.cacheDir = c.artifactPath d.cacheDir := by
      rw [Candidate.artifactPath, Candidate.artifactPath, hname]
    rw [hpath]
    exact ⟨_, _, _, hlook, hlook⟩
  exact separate_of_reliable hreliable i _ c c' hi' hj' houtlasts ⟨fs, hintact, hsame⟩

end Upkeep.Download
