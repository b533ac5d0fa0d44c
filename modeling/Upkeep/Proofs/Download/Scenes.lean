import Upkeep.Download.Verification
import Upkeep.Proofs.Download.Turns
import Upkeep.Proofs.Files.Changes

/-!
# Files while downloads run

A history of downloads says what was begun and what came of it, and nothing about the files that
the pieces of work share. Here the files are put beside it. A scene is the state of the files
together with the pieces of work in flight, each with all states of the files that there have been
since it began; a film is a run of scenes that goes with a history.

A piece of work touches files only while it is in flight, and every piece may do so at any moment
between two events. A fetch writes only the file that the path of its artifact leads to, in any
way, and may create directories; an artifact that is discarded is removed. Taking a digest touches
nothing, but it takes time: the file is opened at some moment, and what is read after that is the
content of the file if that stays as it is, and any bytes if it does not.

## Main definitions

* `Cue`, `History.cues`: what a history says of the pieces of work in flight.
* `Scene`, `Job.Touches`, `Job.Yields`: files and work in flight, and what that work may do.
* `Filmed`: a run of scenes that goes with a history.

## Main results

* `filmed_append`: the film of some cues after others.
* `Files.Writes.read`: what is written elsewhere does not change what is read.
-/

namespace Upkeep

/-! ### What work does to files -/

namespace Files

/-- The file that a path leads to is written, emptied or removed, and nothing else changes. -/
def Writes (fs : Files) (path : String) (fs' : Files) : Prop :=
  ∃ place there, fs.lookForWriting path = .ok (place, there) ∧
    fs'.find? place ≠ some .directory ∧ ∀ p, p ≠ place → fs'.find? p = fs.find? p

/-- Two paths lead to one file, or to where there can be one. -/
def SameFile (fs : Files) (path path' : String) : Prop :=
  ∃ place there there', fs.lookForWriting path = .ok (place, there) ∧
    fs.lookForWriting path' = .ok (place, there')

variable {fs fs' : Files} {path path' : String} {content : ByteArray}

theorem Writes.directories (hw : fs.Writes path fs') :
    ∀ p, fs.find? p = some .directory → fs'.find? p = some .directory := by
  obtain ⟨place, there, hlook, -, hother⟩ := hw
  intro p hp
  rw [hother p ?_, hp]
  rintro rfl
  exact find?_ne_directory hlook hp

/-- **What is written elsewhere does not change what is read.** -/
theorem Writes.read (hw : fs.Writes path' fs') (happart : ¬fs.SameFile path path')
    (h : fs.read path = .ok content) : fs'.read path = .ok content := by
  have hdirs := hw.directories
  obtain ⟨place, there, hlook, -, hother⟩ := hw
  obtain ⟨identity, hread⟩ := lookForWriting_of_read h
  have hne : Path.place path ≠ place := by
    rintro rfl
    exact happart ⟨_, _, _, hread, hlook⟩
  refine read_congr hdirs h ?_
  rw [fileAt?_congr (hother _ hne)]
  exact (read_eq_ok h).2

/-- A file that two paths lead to can be filled through the one, and that is read through the
other. -/
theorem SameFile.fill (h : fs.SameFile path path') (content : ByteArray) :
    ∃ fs' : Files, fs.Writes path' fs' ∧ fs'.read path = .ok content ∧ fs'.SameFile path path' := by
  obtain ⟨place, there, there', hlook, hlook'⟩ := h
  have hne : place ≠ [] := Path.file?_ne_nil (lookForWriting_eq_ok hlook).1
  have hfile : (fs.put place (.file 0 content none)).find? place = some (.file 0 content none) :=
    find?_put_self hne
  have hother : ∀ p, p ≠ place → (fs.put place (.file 0 content none)).find? p = fs.find? p :=
    fun p hp => find?_put_of_ne hp
  have hagain := lookForWriting_again hlook hfile hother
  refine ⟨fs.put place (.file 0 content none), ⟨place, there', hlook', ?_, hother⟩,
    read_of_lookForWriting hagain, place, _, _, hagain, lookForWriting_again hlook' hfile hother⟩
  rw [hfile]
  simp

/-- New directories do not change what is read. -/
theorem Grows.read (hg : fs.Grows fs') (h : fs.read path = .ok content) :
    fs'.read path = .ok content := by
  refine read_congr (fun p hp => ?_) h ?_
  · rcases hg p with hsame | ⟨hnone, -⟩
    · rw [hsame, hp]
    · rw [hnone] at hp
      cases hp
  · rw [hg.fileAt?]
    exact (read_eq_ok h).2

/-- A file that is discarded is removed, or there is none. -/
theorem discard_eq_or_writes (fs : Files) (path : String) :
    Verification.discard fs path = fs ∨ fs.Writes path (Verification.discard fs path) := by
  rw [Verification.discard]
  cases hremove : fs.remove path with
  | error cause => exact Or.inl rfl
  | ok fs' =>
    obtain ⟨place, identity, content, hlook, rfl⟩ := remove_eq_ok hremove
    refine Or.inr ⟨place, _, hlook, ?_, fun p hp => find?_drop_of_ne hp⟩
    dsimp only
    rw [find?_drop_self (Path.file?_ne_nil (lookForWriting_eq_ok hlook).1)]
    simp

end Files

/-- The digest of some bytes. -/
def contentDigest (algorithm : Digest.Variant) (content : ByteArray) : String :=
  Verification.digestOfReads algorithm (Verification.pieces Verification.readSize content)

/-- Where the artifact of a candidate is kept. -/
@[irreducible]
def Candidate.artifactPath (dir : String) (c : Candidate) : String :=
  Path.join dir c.artifactFileName

namespace Job

/-- What a piece of work in flight may do to files at a time. -/
def Touches : Job → Files → Files → Prop
  | .fetch c dir _, fs, fs' => fs.Grows fs' ∨ fs.Writes (c.artifactPath dir) fs'
  | .discard path, fs, fs' => fs' = Verification.discard fs path
  | .rest _, _, _ | .digest .., _, _ => False

/-- The digest of what is read from a file that is opened in one of the states. It is that of the
file if the file stays as it is from then on. -/
def Digests (seen : List Files) (path : String) (algorithm : Digest.Variant)
    (hex : String) : Prop :=
  ∃ before fs after start content, seen = before ++ fs :: after ∧ fs.read path = .ok start ∧
    hex = contentDigest algorithm content ∧
      ((∀ fs' ∈ after, fs'.read path = .ok start) → content = start)

/-- What may come of a piece of work during which there have been some states of the files. -/
def Yields (seen : List Files) : (job : Job) → job.Result → Prop
  | .fetch c dir _, .inTime (.ok path) => path = c.artifactPath dir
  | .digest path algorithm, .ok hex => Digests seen path algorithm hex
  | _, _ => True

end Job

/-! ### Cues -/

/-- What a history says of the pieces of work in flight. -/
inductive Cue where
  /-- The candidate at an index has begun a piece of work. -/
  | launch (index : Nat) (job : Job)
  /-- A piece of work is done. -/
  | settle (settled : Settled)

/-- What an event says of the pieces of work in flight: one that is done at once was in flight,
too. -/
def Event.cues : Event → List Cue
  | ⟨.begin index job, answer⟩ =>
    match answer.value with
    | none => [.launch index job]
    | some r => [.launch index job, .settle ⟨index, job, r⟩]
  | ⟨.await first rest, answer⟩ => [.settle (Landing.settled first rest answer.value)]
  | _ => []

/-- What a history says of the pieces of work in flight. -/
def History.cues (h : History) : List Cue := h.flatMap Event.cues

theorem History.cues_append (h h' : History) : cues (h ++ h') = h.cues ++ cues h' := by
  simp [cues]

section

variable {index : Nat} {job : Job} {answer : Answer (Request.begin index job).Reply}

theorem History.cues_of_aloft (h : answer.value = none) :
    cues [⟨.begin index job, answer⟩] = [.launch index job] := by
  simp [cues, Event.cues, h]

theorem History.cues_of_done {r : job.Result} (h : answer.value = some r) :
    cues [⟨.begin index job, answer⟩] = [.launch index job, .settle ⟨index, job, r⟩] := by
  simp [cues, Event.cues, h]

end

/-! ### Scenes -/

/-- The files, and the piece of work that each candidate has in flight with the states of the
files since it began. -/
structure Scene where
  /-- The files. -/
  files : Files
  /-- The pieces of work in flight. -/
  aloft : Nat → Option (Job × List Files)

namespace Scene

/-- Nothing is in flight. -/
def still (fs : Files) : Scene := ⟨fs, fun _ => none⟩

/-- The files are in another state. -/
def see (sc : Scene) (fs : Files) : Scene where
  files := fs
  aloft := fun i => (sc.aloft i).map fun (job, seen) => (job, seen ++ [fs])

/-- A piece of work more is in flight. -/
def launch (sc : Scene) (index : Nat) (job : Job) : Scene where
  files := sc.files
  aloft := fun i => if i = index then some (job, [sc.files]) else sc.aloft i

/-- A piece of work less is in flight. -/
def land (sc : Scene) (index : Nat) : Scene where
  files := sc.files
  aloft := fun i => if i = index then none else sc.aloft i

/-- The work in flight touches files some times. -/
inductive Changes : Scene → Scene → Prop
  /-- Not once. -/
  | refl (sc : Scene) : Changes sc sc
  /-- Once and some more times. -/
  | step {sc sc' : Scene} {index : Nat} {job : Job} {seen : List Files} {fs : Files}
      (aloft : sc.aloft index = some (job, seen)) (touches : job.Touches sc.files fs)
      (rest : Changes (sc.see fs) sc') : Changes sc sc'

/-- A scene that follows another at a cue. -/
inductive Follows : Scene → Cue → Scene → Prop
  /-- A piece of work has begun. -/
  | launched (sc : Scene) (index : Nat) (job : Job) :
      Follows sc (.launch index job) (sc.launch index job)
  /-- A piece of work is done. -/
  | settled {sc : Scene} {settled : Settled} {seen : List Files}
      (aloft : sc.aloft settled.index = some (settled.job, seen))
      (yields : settled.job.Yields seen settled.result) :
      Follows sc (.settle settled) (sc.land settled.index)

/-- A piece of work that is done as soon as it has begun is not seen again. -/
theorem launch_land {sc : Scene} {k : Nat} {job : Job} (h : sc.aloft k = none) :
    (sc.launch k job).land k = sc := by
  obtain ⟨files, aloft⟩ := sc
  refine congrArg (Scene.mk files) (funext fun l => ?_)
  by_cases hl : l = k
  · subst hl
    exact (if_pos rfl).trans h.symm
  · simp [launch, hl]

/-- A piece of work that was alone leaves nothing but what it did to the files. -/
theorem launch_see_land {k : Nat} {job : Job} (fs fs' : Files) :
    (((still fs).launch k job).see fs').land k = still fs' := by
  refine congrArg (Scene.mk fs') (funext fun l => ?_)
  by_cases hl : l = k
  · simp [hl]
  · simp [hl, see, launch, still]

theorem follows_instant {sc : Scene} {k : Nat} {job : Job} {r : job.Result}
    (h : sc.aloft k = none) (hyields : job.Yields [sc.files] r) :
    (sc.launch k job).Follows (.settle ⟨k, job, r⟩) sc := by
  have haloft : (sc.launch k job).aloft k = some (job, [sc.files]) := if_pos rfl
  have hfollows : (sc.launch k job).Follows (.settle ⟨k, job, r⟩) ((sc.launch k job).land k) :=
    .settled haloft hyields
  rwa [launch_land h] at hfollows

theorem follows_touching {fs fs' : Files} {k : Nat} {job : Job} {r : job.Result}
    (hyields : job.Yields [fs, fs'] r) :
    (((still fs).launch k job).see fs').Follows (.settle ⟨k, job, r⟩) (still fs') := by
  have hseen : (((still fs).launch k job).see fs').aloft k = some (job, [fs, fs']) := by
    simp [see, launch, still]
  have hfollows : (((still fs).launch k job).see fs').Follows (.settle ⟨k, job, r⟩)
      ((((still fs).launch k job).see fs').land k) := .settled hseen hyields
  rwa [launch_see_land] at hfollows

theorem changes_touching {fs fs' : Files} {k : Nat} {job : Job} (htouches : job.Touches fs fs') :
    ((still fs).launch k job).Changes (((still fs).launch k job).see fs') := by
  have haloft : ((still fs).launch k job).aloft k = some (job, [fs]) := if_pos rfl
  exact .step haloft htouches (.refl _)

theorem Changes.trans {sc₁ sc₂ sc₃ : Scene} (h : Changes sc₁ sc₂) (h' : Changes sc₂ sc₃) :
    Changes sc₁ sc₃ := by
  induction h with
  | refl sc => exact h'
  | step aloft touches _ ih => exact .step aloft touches (ih h')

end Scene

/-! ### Films -/

/-- A run of scenes that goes with cues. -/
def Filmed : Scene → List Cue → Scene → Prop
  | sc, [], sc' => sc.Changes sc'
  | sc, cue :: cues, sc' => ∃ sc₁ sc₂, sc.Changes sc₁ ∧ sc₁.Follows cue sc₂ ∧ Filmed sc₂ cues sc'

variable {sc sc' sc'' : Scene} {cues cues' : List Cue}

/-- The film of some cues after others. -/
theorem filmed_append : Filmed sc (cues ++ cues') sc'' ↔
    ∃ sc', Filmed sc cues sc' ∧ Filmed sc' cues' sc'' := by
  induction cues generalizing sc with
  | nil =>
    constructor
    · exact fun h => ⟨sc, .refl sc, h⟩
    · rintro ⟨sc', hchanges, h⟩
      cases cues' with
      | nil => exact hchanges.trans h
      | cons cue cues' =>
        obtain ⟨sc₁, sc₂, hfirst, hrest⟩ := h
        exact ⟨sc₁, sc₂, hchanges.trans hfirst, hrest⟩
  | cons cue cues ih =>
    constructor
    · rintro ⟨sc₁, sc₂, hchanges, hcue, h⟩
      obtain ⟨sc', hfirst, hrest⟩ := ih.mp h
      exact ⟨sc', ⟨sc₁, sc₂, hchanges, hcue, hfirst⟩, hrest⟩
    · rintro ⟨sc', ⟨sc₁, sc₂, hchanges, hcue, hfirst⟩, hrest⟩
      exact ⟨sc₁, sc₂, hchanges, hcue, ih.mpr ⟨sc', hfirst, hrest⟩⟩

/-- The film of a piece of work that is done as soon as it has begun. -/
theorem filmed_instant {k : Nat} {job : Job} {r : job.Result} (h : sc.aloft k = none)
    (hyields : job.Yields [sc.files] r) :
    Filmed sc [.launch k job, .settle ⟨k, job, r⟩] sc :=
  ⟨sc, _, .refl sc, .launched sc k job, _, sc, .refl _, Scene.follows_instant h hyields, .refl sc⟩

/-- The film of a piece of work that touches files once, alone. -/
theorem filmed_touching {k : Nat} {job : Job} {r : job.Result} {fs fs' : Files}
    (htouches : job.Touches fs fs') (hyields : job.Yields [fs, fs'] r) :
    Filmed ((Scene.still fs).launch k job) [.settle ⟨k, job, r⟩] (.still fs') :=
  ⟨_, _, Scene.changes_touching htouches, Scene.follows_touching hyields, .refl _⟩

end Upkeep
