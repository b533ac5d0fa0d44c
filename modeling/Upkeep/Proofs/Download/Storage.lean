import Upkeep.Live.World
import Upkeep.Proofs.Download.Integrity
import Upkeep.Proofs.Files.Confinement

/-!
# Where downloads put artifacts

The name of an artifact's file is put together from the name, the version and the architecture of a
package, as the repository says them, and joined to the directory of the downloads. On a machine,
downloads from the web and from the machine itself create, overwrite and remove no file but the one
that this path leads to, whatever comes of them and however often they are tried.

Whether that file is in the directory is another matter. Colons are replaced in its name, since they
come from epochs, and slashes are not. So it is directly in the directory, under its name, just if
there is no slash in the name, the version and the architecture (`place_artifactPath_iff`). With one
the file may be anywhere (`fetch_strays`).

Downloads from a repository are left to dnf, which names files itself.

## Main definitions

* `Download.artifactPlaces`: where the artifacts of candidates are kept.
* `Board.Addressed`: downloads keep to the paths of their artifacts.

## Main results

* `Dnf.confined_fetch`: what a fetch touches.
* `Candidate.place_artifactPath_iff`: when an artifact is kept in the directory.
* `Download.stored_inside`: what downloads on a machine touch, and when that is in the directory.
-/

namespace Upkeep

/-! ### The name of an artifact's file -/

namespace Candidate

theorem stepOf?_artifactFileName (c : Candidate) :
    Path.stepOf? c.artifactFileName = some (.enter c.artifactFileName) := by
  have hlast : c.artifactFileName.toList.getLast? = some 'm' := by
    rw [artifactFileName, String.toList_append, List.getLast?_append]
    rfl
  refine Path.stepOf?_eq_enter.mpr ⟨rfl, ?_, ?_, ?_⟩
  all_goals
    intro heq
    rw [heq] at hlast
    revert hlast
    decide

/-- A slash in the name of the file comes from the package. -/
theorem slash_not_mem_artifactFileName (c : Candidate) : '/' ∉ c.artifactFileName.toList ↔
    '/' ∉ c.name.toList ∧ '/' ∉ c.newVersion.toList ∧ '/' ∉ c.arch.toList := by
  have hkept : ∀ ch : Char, (if ch = ':' then '_' else ch) = '/' ↔ ch = '/' := by
    intro ch
    split
    · rename_i hcolon
      subst hcolon
      decide
    · exact Iff.rfl
  simp [artifactFileName, nevra, hkept]

/-- **An artifact is kept directly in the directory, under its name**, just if there is no slash in
what the name is made of. -/
theorem place_artifactPath_iff (c : Candidate) (dir : String) :
    Path.place (c.artifactPath dir) = Path.place dir ++ [c.artifactFileName] ↔
      '/' ∉ c.name.toList ∧ '/' ∉ c.newVersion.toList ∧ '/' ∉ c.arch.toList := by
  rw [artifactPath, Path.place_join_iff c.stepOf?_artifactFileName,
    slash_not_mem_artifactFileName]

end Candidate

/-! ### What a fetch touches -/

namespace Dnf

variable {c : Candidate} {dir path : String}

theorem confined_save (address path : String) (reply : Web.Reply) (fs : Files) :
    fs.Confined [Path.place path] (save address path reply fs).2 := by
  cases reply with
  | unanswered reason => exact .refl _ _
  | answered status body breakOff =>
    have hwriting := Files.confined_writing fs path body
    rw [save]
    split
    · split
      · rename_i fs' cause hperform
        rw [hperform] at hwriting
        exact hwriting
      · rename_i fs' hperform
        rw [hperform] at hwriting
        cases breakOff with
        | none => exact hwriting
        | some reason => exact hwriting
    · exact .refl _ _

theorem confined_fetchFromWeb (around : Surroundings) (address path : String) (m : Machine) :
    m.files.Confined [Path.place path] (Manager.fetchFromWeb around address path m).2.files ∧
      ∀ answered, (Manager.fetchFromWeb around address path m).1 = .ok answered →
        answered = path := by
  refine ⟨confined_save address path (around.web address) m.files, fun answered h => ?_⟩
  rw [Manager.fetchFromWeb] at h
  dsimp only at h
  cases hsave : (save address path (around.web address) m.files).1 with
  | error e =>
    rw [hsave] at h
    cases h
  | ok done =>
    rw [hsave] at h
    cases h
    rfl

theorem confined_fetchFromMachine (source path : String) (m : Machine) :
    m.files.Confined [Path.place path] (Manager.fetchFromMachine source path m).2.files ∧
      ∀ answered, (Manager.fetchFromMachine source path m).1 = .ok answered →
        answered = path := by
  have hcopy : m.files.Confined [Path.place path] (m.files.perform [.copy source path]).1 := by
    refine Files.confined_perform (fun step hstep fs => ?_) m.files
    obtain rfl := List.mem_singleton.mp hstep
    exact Files.confined_settle fun fs' h => Files.confined_copy h
  rw [Manager.fetchFromMachine]
  split
  · rename_i fs hperform
    rw [hperform] at hcopy
    exact ⟨hcopy, fun answered h => by cases h; rfl⟩
  · rename_i fs cause hperform
    rw [hperform] at hcopy
    exact ⟨hcopy, fun answered h => by cases h⟩

/-- **A fetch touches the artifact's file and no other**, and answers where that is. -/
theorem confined_fetch (d : Manager) (around : Surroundings) (m : Machine)
    (hsource : sourceOf c ≠ .repository) (dir : String) :
    m.files.Confined [Path.place (c.artifactPath dir)] (d.fetch around c dir m).2.files ∧
      ∀ answered, (d.fetch around c dir m).1 = .ok answered → answered = c.artifactPath dir := by
  have hgrows := (Files.grows_createDirs m.files dir).confined [Path.place (c.artifactPath dir)]
  rw [Candidate.artifactPath] at hgrows ⊢
  rw [Manager.fetch]
  split
  · rename_i fs cause hdirs
    rw [hdirs] at hgrows
    exact ⟨hgrows, fun answered h => by cases h⟩
  · rename_i fs hdirs
    rw [hdirs] at hgrows
    dsimp only
    split
    · rename_i address _
      obtain ⟨hconfined, hanswers⟩ :=
        confined_fetchFromWeb around address (Path.join dir c.artifactFileName) (m.withFiles fs)
      exact ⟨hgrows.trans hconfined, hanswers⟩
    · rename_i source _
      obtain ⟨hconfined, hanswers⟩ :=
        confined_fetchFromMachine source (Path.join dir c.artifactFileName) (m.withFiles fs)
      exact ⟨hgrows.trans hconfined, hanswers⟩
    · rename_i hrepository
      exact absurd hrepository hsource

end Dnf

/-! ### What downloads touch -/

theorem confined_discard (fs : Files) (path : String) :
    fs.Confined [Path.place path] (Verification.discard fs path) := by
  rw [Verification.discard]
  cases hremove : fs.remove path with
  | error cause => exact .refl _ _
  | ok fs' => exact Files.confined_remove hremove

namespace Live

variable {setup : Setup} {first : Nat × Job} {rest : List (Nat × Job)}

/-- The piece of work that is done of several is done as if it were the only one. -/
theorem performAmong_settled {index : Nat} {m m' : Machine} {landing : Landing first rest}
    (h : performAmong setup index m first rest = (landing, m')) :
    perform setup m (Landing.settled first rest landing).job =
      ((Landing.settled first rest landing).result, m') := by
  induction rest generalizing first with
  | nil => exact h
  | cons second rest ih =>
    rw [performAmong] at h
    split at h
    · cases h
      rfl
    · cases h
      exact ih rfl

theorem files_elapsed (m : Machine) (nanos : Nat) : { m with elapsed := nanos }.files = m.files :=
  rfl

-- by the lemma, for any time: the kernel would count out the nanoseconds of the rest
theorem files_rest (setup : Setup) (m : Machine) (millis : Nat) :
    (perform setup m (.rest millis)).2.files = m.files :=
  files_elapsed m _

/-- Something with a limit is not done at all, or on a machine with the same files. -/
theorem attempt_cases {α : Type} (limit : Option Span) (yields : Bool)
    (work : Machine → α × Machine) (m : Machine) :
    attempt limit yields work m = (.expired, m) ∨ ∃ m₁ : Machine, m₁.files = m.files ∧
      (attempt limit yields work m).2.files = (work m₁).2.files ∧
        ∀ value, (attempt limit yields work m).1 = .inTime value → value = (work m₁).1 := by
  rw [attempt]
  split
  · exact Or.inl rfl
  · right
    rw [Machine.attempt]
    refine ⟨{ m with
      deadline := limit.map fun l => m.elapsed + l.nanos
      yields := yields
      abandoned := false }, rfl, ?_⟩
    split
    · rename_i value m' hattempt
      obtain ⟨hvalue, rfl⟩ := Prod.mk.inj hattempt
      refine ⟨rfl, fun value' heq => ?_⟩
      cases heq
      split at hvalue
      · cases hvalue
      · exact (Option.some.inj hvalue).symm
    · rename_i m' hattempt
      obtain ⟨-, rfl⟩ := Prod.mk.inj hattempt
      exact ⟨rfl, fun value' heq => by cases heq⟩

theorem await_settled (first : Nat × Job) (rest : List (Nat × Job)) (s : State) :
    perform setup s.machine (Landing.settled first rest (await setup first rest s).1.value).job =
      ((Landing.settled first rest (await setup first rest s).1.value).result,
        (await setup first rest s).2.machine) :=
  performAmong_settled rfl

end Live

namespace Download

variable {d : DownloadConfig} {cs : List Candidate} {setup : Live.Setup} {s : Live.State}
  {b b' : Board} {h : History} {c : Candidate} {t : Task}

/-- Where the artifacts of candidates are kept. -/
def artifactPlaces (d : DownloadConfig) (cs : List Candidate) : List Place :=
  cs.map fun c => Path.place (c.artifactPath d.cacheDir)

/-- Every path on a board is that of an artifact. -/
def Board.Addressed (d : DownloadConfig) (b : Board) : Prop :=
  ∀ (k : Nat) (c : Candidate) (s : Standing), b[k]? = some (c, s) → s.Addressed d.cacheDir c

theorem Board.addressed_start (cs : List Candidate) : (Board.start cs).Addressed d := by
  intro k c s hk
  rw [Board.eq_queued_of_start hk]
  exact trivial

theorem Board.Addressed.move {k : Nat} {s s' : Standing} (hb : b.Addressed d)
    (hk : b[k]? = some (c, s)) (hs : s'.Addressed d.cacheDir c) :
    Board.Addressed d (b.move (k, c, s')) := by
  intro j c' s'' hj
  rcases Board.getElem?_move_eq_some hk hj with ⟨-, rfl, rfl⟩ | ⟨-, hj⟩
  · exact hs
  · exact hb j c' s'' hj

theorem confined_attempt (setup : Live.Setup) (m : Machine)
    (hsource : Dnf.sourceOf c ≠ .repository) (dir : String) (limit : Span) :
    m.files.Confined [Path.place (c.artifactPath dir)]
        (Live.perform setup m (.fetch c dir limit)).2.files ∧
      (Job.fetch c dir limit).Yields [m.files] (Live.perform setup m (.fetch c dir limit)).1 := by
  rw [Live.perform]
  rcases Live.attempt_cases (some limit) true (setup.manager.fetch setup.around c dir) m with
    hnone | ⟨m₁, hfiles, hafter, hanswers⟩
  · rw [hnone]
    exact ⟨.refl _ _, trivial⟩
  · obtain ⟨hconfined, hpath⟩ := Dnf.confined_fetch setup.manager setup.around m₁ hsource dir
    rw [hfiles, ← hafter] at hconfined
    refine ⟨hconfined, ?_⟩
    cases hresult : (Live.attempt (some limit) true
        (setup.manager.fetch setup.around c dir) m).1 with
    | expired => exact trivial
    | inTime value =>
      cases value with
      | error e => exact trivial
      | ok path => exact hpath path (hanswers _ hresult).symm

/-- A digest that is taken at once is that of the file. -/
theorem yields_fileDigest (fs : Files) (path : String) (algorithm : Digest.Variant) :
    (Job.digest path algorithm).Yields [fs] (Verification.fileDigest fs path algorithm) := by
  cases hdigest : Verification.fileDigest fs path algorithm with
  | error cause => exact trivial
  | ok hex =>
    obtain ⟨content, hread, rfl⟩ := Files.fileDigest_eq_ok.mp hdigest
    exact ⟨[], fs, [], content, content, rfl, hread, rfl, fun _ => rfl⟩

/-- **A piece of work touches the artifact's file and no other**, and the paths that follow from
what comes of it are those of artifacts. -/
theorem confined_job (setup : Live.Setup) (m : Machine) (hsource : Dnf.sourceOf c ≠ .repository)
    (ht : t.Addressed d.cacheDir c) :
    m.files.Confined [Path.place (c.artifactPath d.cacheDir)]
        (Live.perform setup m (t.job d c)).2.files ∧
      (t.job d c).Yields [m.files] (Live.perform setup m (t.job d c)).1 := by
  cases t with
  | fetching attempt =>
    exact confined_attempt setup m hsource d.cacheDir (Task.limit d)
  | resting attempt =>
    rw [Task.job, Live.files_rest]
    exact ⟨.refl _ _, trivial⟩
  | checking attempt path expected =>
    exact ⟨.refl _ _, yields_fileDigest m.files path expected.algorithm⟩
  | discarding attempt path reason =>
    obtain rfl : path = c.artifactPath d.cacheDir := ht
    exact ⟨confined_discard m.files _, trivial⟩

/-- **A turn touches the files of artifacts and no others**. -/
theorem Turn.confined (ht : Turn d b h b') (hsame : b.map Prod.fst = cs)
    (hsource : ∀ c ∈ cs, Dnf.sourceOf c ≠ .repository) (hb : b.Addressed d)
    (hgives : (Live.answer setup).Gives h s) :
    b'.Addressed d ∧ s.machine.files.Confined (artifactPlaces d cs)
      ((Live.answer setup).after h s).machine.files := by
  cases ht with
  | launched due answer aloft =>
    have hready := hb _ _ _ (Board.due?_eq_some due)
    exact ⟨hb.move (Board.due?_eq_some due) hready, .refl _ _⟩
  | instant due answer done =>
    obtain rfl : answer = ⟨none, false, s.machine.cancelled⟩ := hgives.1
    cases done
  | admitted due next => exact ⟨hb.move (Board.admissible?_eq_some next).1 trivial, .refl _ _⟩
  | landed due next flights answer flying done =>
    rename_i first rest f r
    have hk := Board.mem_flights.mp flying
    have hmem : f.candidate ∈ cs := hsame ▸ List.mem_map_of_mem (List.mem_of_getElem? hk)
    obtain rfl : answer = (Live.await setup _ _ s).1 := hgives.1
    have hperform : Live.perform setup s.machine (f.task.job d f.candidate) = (r, _) :=
      done ▸ Live.await_settled (first.piece d) (rest.map (Flight.piece d)) s
    obtain ⟨hconfined, hyields⟩ :=
      confined_job setup s.machine (hsource f.candidate hmem) (hb _ _ _ hk)
    rw [hperform] at hconfined hyields
    refine ⟨hb.move hk (Task.advance_addressed (hb _ _ _ hk) hyields), hconfined.mono ?_⟩
    exact List.cons_subset.mpr ⟨List.mem_map_of_mem hmem, List.nil_subset _⟩

/-- **Downloads touch the files of artifacts and no others**. -/
theorem Turns.confined (ht : Turns d b h b') (hsame : b.map Prod.fst = cs)
    (hsource : ∀ c ∈ cs, Dnf.sourceOf c ≠ .repository) (hb : b.Addressed d)
    (hgives : (Live.answer setup).Gives h s) :
    b'.Addressed d ∧ s.machine.files.Confined (artifactPlaces d cs)
      ((Live.answer setup).after h s).machine.files := by
  induction ht generalizing s with
  | none => exact ⟨hb, .refl _ _⟩
  | more first others ih =>
    obtain ⟨hfirst, hothers⟩ := World.gives_append.mp hgives
    obtain ⟨hb', hconfined⟩ := first.confined hsame hsource hb hfirst
    obtain ⟨hb'', hconfined'⟩ := ih (first.map_fst.trans hsame) hb' hothers
    rw [World.after_append]
    exact ⟨hb'', hconfined.trans hconfined'⟩

/-- **What downloads on a machine touch**: no files but those at the paths of the artifacts. These
are where the artifacts of the report are said to be, and each is directly in the directory, under
the name of the artifact, just if there is no slash in what that is made of. -/
theorem stored_inside (setup : Live.Setup) (d : DownloadConfig) (cs : List Candidate)
    (hsource : ∀ c ∈ cs, Dnf.sourceOf c ≠ .repository) (s : Live.State) :
    let (report, after) := (all d cs).run (Live.answer setup) s
    s.machine.files.Confined (artifactPlaces d cs) after.machine.files ∧
      (∀ a ∈ report.succeeded, a.path = a.candidate.artifactPath d.cacheDir) ∧
      ∀ c ∈ cs, Path.place (c.artifactPath d.cacheDir) =
          Path.place d.cacheDir ++ [c.artifactFileName] ↔
        '/' ∉ c.name.toList ∧ '/' ∉ c.newVersion.toList ∧ '/' ∉ c.arch.toList := by
  have hgives := Program.gives_history (Live.answer setup) (all d cs) s
  obtain ⟨b, hturns, -, -, hreport⟩ :=
    leads_all (Program.leads_history (Live.answer setup) (all d cs) s)
  obtain ⟨hb, hconfined⟩ :=
    hturns.confined (Board.map_fst_start cs) hsource (Board.addressed_start cs) hgives
  refine ⟨?_, ?_, fun c _ => c.place_artifactPath_iff d.cacheDir⟩
  · rw [Program.run_eq_after]
    exact hconfined
  · intro a ha
    rw [hreport] at ha
    obtain ⟨⟨c, standing⟩, hmem, heq⟩ := List.mem_filterMap.mp ha
    obtain ⟨k, hk⟩ := List.mem_iff_getElem?.mp hmem
    split at heq
    · rename_i c path hentry
      cases hentry
      cases heq
      exact hb k c _ hk
    · cases heq

/-- A machine without programs, a web and mail. -/
def offline : Live.Setup where
  around := { programs := fun _ => none, web := fun _ => .unanswered "", mail := .unreachable "" }
  manager := { metadataLimit := ⟨1⟩, applyLimit := ⟨1⟩ }
  emitters := []
  lockPath := "/lock"
  markerPath := "/last_run.json"
  self := ⟨1, "", ⟨0, 0⟩⟩

/-- An upgrade of a package whose name begins with two dots and a slash. -/
def straying : Candidate where
  name := "../notes"
  arch := "x86_64"
  oldVersion := none
  newVersion := "1-1"
  repo := "updates"
  advisory := none
  location := some "/src.rpm"
  checksum := none

/-- A cache, the artifact of the upgrade, and notes beside the cache. -/
def noted : Files where
  entries := [(["cache"], .directory), (["src.rpm"], .file 0 ⟨#[1]⟩ none),
    (["notes-1-1.x86_64.rpm"], .file 1 ⟨#[2]⟩ none)]
  nextIdentity := 2

/-- The upgrade's downloads keep to the file at the path of its artifact. -/
theorem stored_inside_straying :
    (∀ c ∈ [straying], Dnf.sourceOf c ≠ .repository) ∧
      let (report, after) := (all { cacheDir := "/cache" } [straying]).run (Live.answer offline)
        { machine := .start noted, started := ⟨0, 0⟩ }
      noted.Confined (artifactPlaces { cacheDir := "/cache" } [straying]) after.machine.files ∧
        (∀ a ∈ report.succeeded, a.path = a.candidate.artifactPath "/cache") ∧
        ∀ c ∈ [straying], Path.place (c.artifactPath "/cache") =
            Path.place "/cache" ++ [c.artifactFileName] ↔
          '/' ∉ c.name.toList ∧ '/' ∉ c.newVersion.toList ∧ '/' ∉ c.arch.toList := by
  have hsource : ∀ c ∈ [straying], Dnf.sourceOf c ≠ .repository := by decide +kernel
  exact ⟨hsource, stored_inside offline { cacheDir := "/cache" } [straying] hsource _⟩

/-- **Fetches do not keep to the directory**: one of an upgrade that may well be listed overwrites
notes beside it. -/
theorem fetch_strays :
    ¬∀ (d : Dnf.Manager) (around : Surroundings) (listing : String) (c : Candidate) (dir : String)
      (m : Machine) (p : Place), c ∈ Dnf.parseUpgrades listing → Dnf.sourceOf c ≠ .repository →
        p.dropLast ≠ Path.place dir →
          (d.fetch around c dir m).2.files.fileAt? p = m.files.fileAt? p ∧
            (Verification.discard (d.fetch around c dir m).2.files (c.artifactPath dir)).fileAt? p =
              m.files.fileAt? p := by
  intro hall
  have hlisted :
      straying ∈ Dnf.parseUpgrades "../notes\tx86_64\t1-1\tupdates\t/src.rpm\n" := by
    decide +kernel
  have hkept := (hall offline.manager offline.around _ straying "/cache" (.start noted)
    ["notes-1-1.x86_64.rpm"] hlisted (by decide +kernel) (by decide +kernel)).1
  revert hkept
  decide +kernel

end Download

end Upkeep
