import Upkeep.Proofs.Download.Scenes

/-!
# Whether downloaded artifacts stay intact

Every artifact is checked on its own, but all of them lie in one directory, and while one is
checked or has been checked, others are still fetched and discarded. What was checked stays intact
only if nothing else leads to its file. The name of the file says less than the candidate: the
repository is not in it, and two candidates of one name, version and architecture have one file.

So the downloads are reliable under a condition on the candidates. Two of them clash if there is a
state of the files in which the artifact of the one is intact and the path of the other leads to
the same file. That matters if the work on the other may go on when the one is finished: it comes
later in the list, or there are places for both. Where no such candidates clash, every artifact of
the report is intact at the end, in whichever order the pieces of work are done.

## Why a check can be trusted then

The file of the candidate may be written while its digest is taken, and then the digest may be
that of bytes that were never in the file. But from the moment at which it was opened the path
leads to it, and whoever writes it then has a path that leads there as well (`Files.SameFile`). A
digest that is the expected one is that of some bytes, and with these bytes in the file the two
candidates clash.

## Main definitions

* `Files.Intact`, `Download.Clash`, `Download.Separate`, `Download.Reliable`.
* `Download.Accord`: the files are in accord with the board.

## Main results

* `Accord.changes`, `Accord.launch`, `Accord.settle`: what happens keeps the files in accord.
* `reliable_of_separate`: downloads of separate candidates are reliable.
-/

namespace Upkeep

/-- The file at a path has the digest that a candidate's checksum asks for. -/
def Files.Intact (fs : Files) (path : String) (c : Candidate) : Prop :=
  ∃ expected digest, c.checksum = some expected ∧
    Verification.fileDigest fs path expected.algorithm = .ok digest ∧
      Download.Task.isExpected expected digest = true

/-- Some bytes have the digest that the candidate's checksum asks for. -/
def Candidate.Obtainable (c : Candidate) : Prop :=
  ∃ expected content, c.checksum = some expected ∧
    Download.Task.isExpected expected (contentDigest expected.algorithm content) = true

namespace Files

variable {fs fs' : Files} {path : String} {c : Candidate}

theorem fileDigest_eq_ok {digest : String} {algorithm : Digest.Variant} :
    Verification.fileDigest fs path algorithm = .ok digest ↔
      ∃ content, fs.read path = .ok content ∧ digest = contentDigest algorithm content := by
  rw [Verification.fileDigest]
  cases fs.read path with
  | error cause => simp
  | ok content => simp [contentDigest, eq_comm]

/-- What is intact is what can be read and has the digest. -/
theorem intact_iff : fs.Intact path c ↔ ∃ expected content, c.checksum = some expected ∧
    fs.read path = .ok content ∧
      Download.Task.isExpected expected (contentDigest expected.algorithm content) = true := by
  constructor
  · rintro ⟨expected, digest, hchecksum, hdigest, hexpected⟩
    obtain ⟨content, hread, rfl⟩ := fileDigest_eq_ok.mp hdigest
    exact ⟨expected, content, hchecksum, hread, hexpected⟩
  · rintro ⟨expected, content, hchecksum, hread, hexpected⟩
    exact ⟨expected, _, hchecksum, fileDigest_eq_ok.mpr ⟨content, hread, rfl⟩, hexpected⟩

theorem Intact.obtainable (h : fs.Intact path c) : c.Obtainable := by
  obtain ⟨expected, content, hchecksum, -, hexpected⟩ := intact_iff.mp h
  exact ⟨expected, content, hchecksum, hexpected⟩

/-- An artifact stays intact if the same is read from its file. -/
theorem Intact.congr (h : fs.Intact path c)
    (hread : ∀ content, fs.read path = .ok content → fs'.read path = .ok content) :
    fs'.Intact path c := by
  obtain ⟨expected, content, hchecksum, hcontent, hexpected⟩ := intact_iff.mp h
  exact intact_iff.mpr ⟨expected, content, hchecksum, hread content hcontent, hexpected⟩

end Files

namespace Download

/-! ### Separate candidates -/

/-- In some state of the files the artifact of a candidate is intact, and the path of another
candidate's artifact leads to its file. -/
def Clash (dir : String) (c c' : Candidate) : Prop :=
  ∃ fs : Files, fs.Intact (c.artifactPath dir) c ∧
    fs.SameFile (c.artifactPath dir) (c'.artifactPath dir)

/-- The work on the candidate at the second index may go on when the one at the first is finished:
it comes later, or there are places for both. -/
def Outlasts (d : DownloadConfig) (i j : Nat) : Prop := i ≠ j ∧ (i < j ∨ 1 < Board.places d)

/-- No candidate clashes with another whose work may outlast its own. -/
def Separate (d : DownloadConfig) (cs : List Candidate) : Prop :=
  ∀ (i j : Nat) (c c' : Candidate), cs[i]? = some c → cs[j]? = some c' → Outlasts d i j →
    ¬Clash d.cacheDir c c'

/-- Whatever is answered, and whatever the work in flight does to the files meanwhile, every
artifact of the report is intact at the end. -/
def Reliable (d : DownloadConfig) (cs : List Candidate) : Prop :=
  ∀ (h : History) (report : Report) (fs : Files) (sc : Scene), (all d cs).Leads h report →
    Filmed (.still fs) h.cues sc → ∀ a ∈ report.succeeded, sc.files.Intact a.path a.candidate

/-- What two paths lead to can be filled with any bytes. -/
theorem clash_of_sameFile {dir : String} {c c' : Candidate} {fs : Files} (hc : c.Obtainable)
    (hsame : fs.SameFile (c.artifactPath dir) (c'.artifactPath dir)) : Clash dir c c' := by
  obtain ⟨expected, content, hchecksum, hexpected⟩ := hc
  obtain ⟨fs', -, hread, hsame⟩ := hsame.fill content
  exact ⟨fs', Files.intact_iff.mpr ⟨expected, content, hchecksum, hread, hexpected⟩, hsame⟩

/-- Nothing that may outlast the work on a candidate that could be intact leads to its file. -/
def Alone (d : DownloadConfig) (cs : List Candidate) (i : Nat) (c : Candidate) : Prop :=
  c.Obtainable → ∀ (j : Nat) (c' : Candidate), cs[j]? = some c' → Outlasts d i j →
    ∀ fs : Files, ¬fs.SameFile (c.artifactPath d.cacheDir) (c'.artifactPath d.cacheDir)

theorem Separate.alone {d : DownloadConfig} {cs : List Candidate} (h : Separate d cs) {i : Nat}
    {c : Candidate} (hi : cs[i]? = some c) : Alone d cs i c :=
  fun hc j c' hj hlong _ hsame => h i j c c' hi hj hlong (clash_of_sameFile hc hsame)

/-! ### Files in accord with the board -/

/-- Every path of a task is that of its candidate's artifact. -/
def Task.Addressed (dir : String) (c : Candidate) : Task → Prop
  | .checking _ path expected => path = c.artifactPath dir ∧ c.checksum = some expected
  | .discarding _ path _ => path = c.artifactPath dir
  | _ => True

/-- Every path of a candidate on the board is that of its artifact. -/
def Standing.Addressed (dir : String) (c : Candidate) : Standing → Prop
  | .ready t | .flying t => t.Addressed dir c
  | .finished (.ok path) => path = c.artifactPath dir
  | _ => True

/-- Once a file could be read, the same could be read from then on. -/
def Steady (path : String) (seen : List Files) : Prop :=
  seen.Pairwise fun fs fs' => ∀ content, fs.read path = .ok content → fs'.read path = .ok content

/-- The files are in accord with the board, as far as the candidate at an index is concerned. -/
structure Accord (d : DownloadConfig) (cs : List Candidate) (i : Nat) (c : Candidate) (b : Board)
    (sc : Scene) : Prop where
  /-- The board is about these candidates. -/
  same : b.map Prod.fst = cs
  /-- Where there is one place, the candidates are done one by one. -/
  orderly : b.Orderly d
  /-- What is in flight is in flight on the board. -/
  aloft : ∀ {k : Nat} {job : Job} {seen : List Files}, sc.aloft k = some (job, seen) →
    ∃ c' t, b[k]? = some (c', .flying t) ∧ job = t.job d c'
  /-- Every path is that of an artifact. -/
  addressed : ∀ {k : Nat} {c' : Candidate} {s : Standing}, b[k]? = some (c', s) →
    s.Addressed d.cacheDir c'
  /-- What is read while the artifact's digest is taken stays as it is. -/
  steady : c.Obtainable → ∀ {path : String} {algorithm : Digest.Variant} {seen : List Files},
    sc.aloft i = some (.digest path algorithm, seen) →
      Steady (c.artifactPath d.cacheDir) seen ∧ seen.getLast? = some sc.files
  /-- An artifact that passed its check is intact. -/
  kept : ∀ {path : String}, b[i]? = some (c, .finished (.ok path)) → sc.files.Intact path c

variable {d : DownloadConfig} {cs : List Candidate} {i k : Nat} {c c' : Candidate} {b : Board}
  {sc sc' : Scene} {t : Task} {s : Standing} {seen : List Files}

theorem getElem?_of_map_fst (hsame : b.map Prod.fst = cs) (hk : b[k]? = some (c', s)) :
    cs[k]? = some c' := by
  rw [← hsame, List.getElem?_map, hk]
  rfl

/-- What is in flight may outlast whatever has been admitted. -/
theorem Board.Orderly.outlasts (hb : b.Orderly d) (hi : b[i]? = some (c, s)) (hs : s ≠ .queued)
    (hk : b[k]? = some (c', .flying t)) (hne : i ≠ k) : Outlasts d i k := by
  refine ⟨hne, ?_⟩
  by_cases hik : i < k
  · exact Or.inl hik
  · right
    by_cases hplaces : Board.places d = 1
    · obtain ⟨c₀, outcome, h₀⟩ := hb hplaces k i c s (by omega) hi hs
      rw [hk] at h₀
      cases h₀
    · have : 1 ≤ Board.places d := Nat.le_max_right _ _
      omega

theorem exists_getElem?_of_map_fst (hsame : b.map Prod.fst = cs) (hk : cs[k]? = some c') :
    ∃ s, b[k]? = some (c', s) := by
  rw [← hsame, List.getElem?_map] at hk
  obtain ⟨⟨c', s⟩, hentry, rfl⟩ := Option.map_eq_some_iff.mp hk
  exact ⟨s, hentry⟩

/-- Work on one candidate does not change what is read of another that is alone. -/
theorem read_of_touches {fs fs' : Files} {content : ByteArray}
    (htouches : (t.job d c').Touches fs fs') (haddressed : t.Addressed d.cacheDir c')
    (happart : ∀ fs : Files,
      ¬fs.SameFile (c.artifactPath d.cacheDir) (c'.artifactPath d.cacheDir))
    (hread : fs.read (c.artifactPath d.cacheDir) = .ok content) :
    fs'.read (c.artifactPath d.cacheDir) = .ok content := by
  cases t with
  | fetching attempt =>
    rcases htouches with hgrows | hwrites
    · exact hgrows.read hread
    · exact hwrites.read (happart fs) hread
  | resting attempt => exact htouches.elim
  | checking attempt path expected => exact htouches.elim
  | discarding attempt path reason =>
    obtain rfl : path = c'.artifactPath d.cacheDir := haddressed
    have hdiscard : fs' = Verification.discard fs (c'.artifactPath d.cacheDir) := htouches
    rcases fs.discard_eq_or_writes (c'.artifactPath d.cacheDir) with hsame | hwrites
    · rw [hdiscard, hsame]
      exact hread
    · rw [hdiscard]
      exact hwrites.read (happart fs) hread

theorem Steady.read {path : String} {fs fs' : Files} {content : ByteArray} (hs : Steady path seen)
    (hlast : seen.getLast? = some fs') (hfs : fs ∈ seen) (hread : fs.read path = .ok content) :
    fs'.read path = .ok content := by
  obtain ⟨front, rfl⟩ := List.getLast?_eq_some_iff.mp hlast
  rcases List.mem_append.mp hfs with hfront | hback
  · exact (List.pairwise_append.mp hs).2.2 fs hfront fs' (List.mem_singleton.mpr rfl) content hread
  · rw [← List.mem_singleton.mp hback]
    exact hread

/-- **Work in flight keeps the files in accord.** -/
theorem Accord.see {job : Job} {fs : Files} (ha : Accord d cs i c b sc)
    (halone : Alone d cs i c) (haloft : sc.aloft k = some (job, seen))
    (htouches : job.Touches sc.files fs) : Accord d cs i c b (sc.see fs) := by
  obtain ⟨c', t, hk, rfl⟩ := ha.aloft haloft
  have hread : c.Obtainable → ∀ {c₀ : Candidate} {s : Standing}, b[i]? = some (c₀, s) →
      s ≠ .queued → i ≠ k → ∀ content, sc.files.read (c.artifactPath d.cacheDir) = .ok content →
        fs.read (c.artifactPath d.cacheDir) = .ok content :=
    fun hc _ _ hi hs hne content => read_of_touches htouches (ha.addressed hk)
      (halone hc k c' (getElem?_of_map_fst ha.same hk) (ha.orderly.outlasts hi hs hk hne))
  refine ⟨ha.same, ha.orderly, ?_, ha.addressed, ?_, ?_⟩
  · intro k' job' seen' hsee
    obtain ⟨⟨job', seen'⟩, hold, heq⟩ := Option.map_eq_some_iff.mp hsee
    cases heq
    exact ha.aloft hold
  · intro hc path algorithm seen' hsee
    obtain ⟨⟨job', seen'⟩, hold, heq⟩ := Option.map_eq_some_iff.mp hsee
    cases heq
    have hne : i ≠ k := by
      rintro rfl
      rw [haloft] at hold
      obtain ⟨hjob, -⟩ := Prod.mk.inj (Option.some.inj hold)
      rw [hjob] at htouches
      exact htouches
    obtain ⟨hsteady, hlast⟩ := ha.steady hc hold
    obtain ⟨c₀, t₀, hi, -⟩ := ha.aloft hold
    refine ⟨List.pairwise_append.mpr ⟨hsteady, List.pairwise_singleton _ _, ?_⟩,
      List.getLast?_concat⟩
    intro fs₁ hfs₁ fs₂ hfs₂ content hcontent
    rw [List.mem_singleton.mp hfs₂]
    exact hread hc hi (by simp) hne content (hsteady.read hlast hfs₁ hcontent)
  · intro path hi
    have hintact := ha.kept hi
    have hne : i ≠ k := by
      rintro rfl
      rw [hk] at hi
      cases hi
    obtain rfl : path = c.artifactPath d.cacheDir := ha.addressed hi
    exact hintact.congr (hread hintact.obtainable hi (by simp) hne)

theorem Accord.changes (ha : Accord d cs i c b sc) (halone : Alone d cs i c)
    (hchanges : sc.Changes sc') : Accord d cs i c b sc' := by
  induction hchanges with
  | refl sc => exact ha
  | step aloft touches _ ih => exact ih (ha.see halone aloft touches)

/-- **A piece of work that begins keeps the files in accord.** -/
theorem Accord.launch (ha : Accord d cs i c b sc) (hk : b[k]? = some (c', .ready t)) :
    Accord d cs i c (b.move (k, c', .flying t)) (sc.launch k (t.job d c')) := by
  refine ⟨(Board.map_fst_move hk).trans ha.same, ha.orderly.move hk rfl _, ?_, ?_, ?_, ?_⟩
  · intro k' job seen hlaunch
    by_cases hkk : k' = k
    · subst hkk
      simp only [Scene.launch, if_true] at hlaunch
      cases hlaunch
      exact ⟨c', t, Board.getElem?_move_self hk _, rfl⟩
    · simp only [Scene.launch, if_neg hkk] at hlaunch
      rw [Board.getElem?_move hk, if_neg (Ne.symm hkk)]
      exact ha.aloft hlaunch
  · intro k' c'' s hk'
    rcases Board.getElem?_move_eq_some hk hk' with ⟨rfl, rfl, rfl⟩ | ⟨-, hk'⟩
    · have hready : (Standing.ready t).Addressed d.cacheDir c'' := ha.addressed hk
      exact hready
    · exact ha.addressed hk'
  · intro hc path algorithm seen hlaunch
    by_cases hik : i = k
    · simp only [Scene.launch, if_pos hik, Option.some.injEq, Prod.mk.injEq] at hlaunch
      rw [← hlaunch.2]
      exact ⟨List.pairwise_singleton _ _, rfl⟩
    · simp only [Scene.launch, if_neg hik] at hlaunch
      exact ha.steady hc hlaunch
  · intro path hi
    rcases Board.getElem?_move_eq_some hk hi with ⟨-, -, hflying⟩ | ⟨-, hi⟩
    · cases hflying
    · exact ha.kept hi

/-- An artifact is intact if its digest was the expected one and what is read from it has stayed
as it is while the digest was taken. -/
theorem intact_of_digests {fs : Files} {expected : Checksum} {path hex : String}
    (hchecksum : c.checksum = some expected)
    (hdigests : Job.Digests seen path expected.algorithm hex)
    (hexpected : Task.isExpected expected hex = true)
    (hsteady : c.Obtainable → Steady path seen ∧ seen.getLast? = some fs) : fs.Intact path c := by
  obtain ⟨before, opened, after, start, content, rfl, hread, rfl, hsame⟩ := hdigests
  obtain ⟨hsteady, hlast⟩ := hsteady ⟨expected, content, hchecksum, hexpected⟩
  have hafter : ∀ fs' ∈ after, fs'.read path = .ok start := fun fs' hfs' =>
    (List.pairwise_cons.mp (List.pairwise_append.mp hsteady).2.1).1 fs' hfs' start hread
  obtain rfl := hsame hafter
  have hopened : opened ∈ before ++ opened :: after := by simp
  exact Files.intact_iff.mpr
    ⟨expected, content, hchecksum, hsteady.read hlast hopened hread, hexpected⟩

/-- Whatever comes of a piece of work, the paths that follow are those of artifacts. -/
theorem Task.advance_addressed {r : (t.job d c').Result} (ht : t.Addressed d.cacheDir c')
    (hyields : (t.job d c').Yields seen r) :
    (Standing.after (t.advance d c' r)).Addressed d.cacheDir c' := by
  cases t with
  | fetching attempt =>
    have hfailure : ∀ x,
        (Standing.after (afterFailure d attempt x)).Addressed d.cacheDir c' := by
      intro x
      rw [afterFailure]
      split
      · exact trivial
      · exact trivial
    rcases r with (x | path) | _
    · exact hfailure x
    · have hpath : path = c'.artifactPath d.cacheDir := hyields
      rw [advance_fetched, afterArrival]
      cases hc : c'.checksum with
      | none => exact hpath
      | some expected => exact ⟨hpath, hc⟩
    · exact hfailure _
  | resting attempt => exact trivial
  | checking attempt path expected =>
    rw [advance_checking]
    cases r with
    | error cause => exact ht.1
    | ok hex =>
      rw [afterCheck]
      split
      · exact ht.1
      · exact ht.1
  | discarding attempt path reason => exact trivial

/-- An artifact that passes its check is intact. -/
theorem Task.intact_of_finished {r : (t.job d c).Result} {fs : Files} {path : String}
    (ht : t.Addressed d.cacheDir c) (hyields : (t.job d c).Yields seen r)
    (hsteady : c.Obtainable → ∀ {path : String} {algorithm : Digest.Variant},
      t.job d c = .digest path algorithm →
        Steady (c.artifactPath d.cacheDir) seen ∧ seen.getLast? = some fs)
    (hfinished : t.advance d c r = .finished (.ok path)) : fs.Intact path c := by
  cases t with
  | fetching attempt =>
    have hfailure : ∀ x, afterFailure d attempt x ≠ .finished (.ok path) := by
      intro x hx
      rw [afterFailure] at hx
      split at hx
      · cases hx
      · cases hx
    rcases r with (x | path) | _
    · exact absurd hfinished (hfailure x)
    · cases hfinished
    · exact absurd hfinished (hfailure _)
  | resting attempt => cases hfinished
  | checking attempt path' expected =>
    obtain ⟨hpath, hchecksum⟩ := ht
    rw [advance_checking] at hfinished
    cases r with
    | error cause => cases hfinished
    | ok hex =>
      rw [afterCheck] at hfinished
      split at hfinished
      · rename_i hexpected
        cases hfinished
        refine intact_of_digests hchecksum hyields hexpected fun hc => ?_
        rw [hpath]
        exact hsteady hc rfl
      · cases hfinished
  | discarding attempt path reason => cases hfinished

/-- **A piece of work that is done keeps the files in accord.** -/
theorem Accord.settle {r : (t.job d c').Result} (ha : Accord d cs i c b sc)
    (hk : b[k]? = some (c', .flying t)) (haloft : sc.aloft k = some (t.job d c', seen))
    (hyields : (t.job d c').Yields seen r) :
    Accord d cs i c (b.move (k, c', Standing.after (t.advance d c' r))) (sc.land k) := by
  refine ⟨(Board.map_fst_move hk).trans ha.same, ha.orderly.move hk rfl _, ?_, ?_, ?_, ?_⟩
  · intro k' job seen hland
    by_cases hkk : k' = k
    · simp [Scene.land, if_pos hkk] at hland
    · simp only [Scene.land, if_neg hkk] at hland
      rw [Board.getElem?_move hk, if_neg (Ne.symm hkk)]
      exact ha.aloft hland
  · intro k' c'' s hk'
    rcases Board.getElem?_move_eq_some hk hk' with ⟨rfl, rfl, rfl⟩ | ⟨-, hk'⟩
    · exact Task.advance_addressed (ha.addressed hk) hyields
    · exact ha.addressed hk'
  · intro hc path algorithm seen hland
    by_cases hik : i = k
    · simp [Scene.land, if_pos hik] at hland
    · simp only [Scene.land, if_neg hik] at hland
      exact ha.steady hc hland
  · intro path hi
    rcases Board.getElem?_move_eq_some hk hi with ⟨rfl, rfl, hafter⟩ | ⟨-, hi⟩
    · refine Task.intact_of_finished (ha.addressed hk) hyields (fun hc path algorithm hjob => ?_) ?_
      · rw [hjob] at haloft
        exact ha.steady hc haloft
      · cases hp : t.advance d c r with
        | more t' =>
          rw [hp] at hafter
          cases hafter
        | finished outcome =>
          rw [hp] at hafter
          cases hafter
          rfl
    · exact ha.kept hi

theorem Accord.admitted (ha : Accord d cs i c b sc) (hnext : b.admissible? d = some (k, c')) :
    Accord d cs i c (b.move (k, c', .ready (.fetching 1))) sc := by
  have hk := (Board.admissible?_eq_some hnext).1
  refine ⟨(Board.map_fst_move hk).trans ha.same, ha.orderly.admitted hnext _, ?_, ?_, ha.steady,
    ?_⟩
  · intro l job seen haloft
    obtain ⟨c'', t, hl, hjob⟩ := ha.aloft haloft
    refine ⟨c'', t, ?_, hjob⟩
    rw [Board.getElem?_move hk, if_neg, hl]
    rintro rfl
    rw [hk] at hl
    cases hl
  · intro l c'' s hl
    rcases Board.getElem?_move_eq_some hk hl with ⟨rfl, rfl, rfl⟩ | ⟨-, hl⟩
    · exact trivial
    · exact ha.addressed hl
  · intro path hi
    rcases Board.getElem?_move_eq_some hk hi with ⟨-, -, hready⟩ | ⟨-, hi⟩
    · cases hready
    · exact ha.kept hi

/-- **A turn keeps the files in accord.** -/
theorem Turn.accord {b' : Board} {h : History} (ht : Turn d b h b') (ha : Accord d cs i c b sc)
    (halone : Alone d cs i c) (hfilm : Filmed sc h.cues sc') :
    Accord d cs i c b' sc' := by
  cases ht with
  | launched due answer aloft =>
    rename_i f
    rw [History.cues_of_aloft aloft] at hfilm
    obtain ⟨sc₁, sc₂, hbefore, hfollows, hafter⟩ := hfilm
    cases hfollows
    exact ((ha.changes halone hbefore).launch (Board.due?_eq_some due)).changes halone hafter
  | instant due answer done =>
    rename_i f r
    have hf := Board.due?_eq_some due
    rw [History.cues_of_done done] at hfilm
    obtain ⟨sc₁, sc₂, hbefore, hfollows, sc₃, sc₄, hbetween, hfollows', hafter⟩ := hfilm
    cases hfollows
    have hflying := ((ha.changes halone hbefore).launch hf).changes halone hbetween
    have hmoved : (b.move (f.index, f.candidate, .flying f.task)).move (f.advance d r) =
        b.move (f.advance d r) := List.set_set _
    cases hfollows' with
    | settled aloft yields =>
      rw [← hmoved]
      have hlanded := hflying.settle (Board.getElem?_move_self hf _) aloft yields
      exact hlanded.changes halone hafter
  | admitted due next => exact (ha.changes halone hfilm).admitted next
  | landed due next flights answer flying done =>
    rename_i first rest f r
    have hcues : History.cues [⟨.await (first.piece d) (rest.map (Flight.piece d)), answer⟩] =
        [.settle (f.settle d r)] := by
      rw [← done]
      rfl
    rw [hcues] at hfilm
    obtain ⟨sc₁, sc₂, hbefore, hfollows, hafter⟩ := hfilm
    cases hfollows with
    | settled aloft yields =>
      exact ((ha.changes halone hbefore).settle (Board.mem_flights.mp flying) aloft yields).changes
        halone hafter

theorem Turns.accord {b' : Board} {h : History} (ht : Turns d b h b')
    (halone : Alone d cs i c) (ha : Accord d cs i c b sc)
    (hfilm : Filmed sc h.cues sc') : Accord d cs i c b' sc' := by
  induction ht generalizing sc with
  | none => exact ha.changes halone hfilm
  | more first others ih =>
    rw [History.cues_append] at hfilm
    obtain ⟨between, hfirst, hothers⟩ := filmed_append.mp hfilm
    exact ih (first.accord ha halone hfirst) hothers

theorem accord_start {fs : Files} : Accord d cs i c (Board.start cs) (.still fs) := by
  refine ⟨Board.map_fst_start cs, Board.orderly_start cs, ?_, ?_, ?_, ?_⟩
  · simp [Scene.still]
  · intro k c' s hk
    rw [Board.eq_queued_of_start hk]
    exact trivial
  · intro hc path algorithm seen haloft
    cases haloft
  · intro path hi
    cases Board.eq_queued_of_start hi

/-- **Downloads of separate candidates are reliable.** -/
theorem reliable_of_separate (h : Separate d cs) : Reliable d cs := by
  intro history report fs sc hl hfilm a ha
  obtain ⟨b, hturns, -, hsame, rfl⟩ := leads_all hl
  obtain ⟨⟨c, s⟩, hmem, heq⟩ := List.mem_filterMap.mp ha
  obtain ⟨i, hi⟩ := List.mem_iff_getElem?.mp hmem
  split at heq
  · rename_i c path hentry
    cases hentry
    cases heq
    exact (hturns.accord (h.alone (getElem?_of_map_fst hsame hi)) accord_start hfilm).kept hi
  · cases heq

end Download

end Upkeep
