import Upkeep.Proofs.Download.Retries
import Upkeep.Proofs.Download.Storage
import Upkeep.Proofs.Files.Interruption
import Upkeep.Proofs.Files.Names

/-!
# What a check decides, and what it leaves

A hasher takes one byte after the other, so nothing is left in it of where one read ended and the
next one began: the digest of a file is that of its whole content, however the system cuts the
content into reads (`Verification.digestOfReads_eq`).

A check is the part of a task that comes after the arrival of an artifact. Its pieces of work are
two, a digest and a removal, and which of them are done depends on what comes of the first. A course
of the check (`Download.Course`) goes through them with the files at hand and leaves open how they
are read. All courses come to the one verdict, and files are changed just if that is a rejection:
then nothing can be read at the path, and nothing else is different.

## Main definitions

* `Verification.Cut`: a way to read some content.
* `Job.Does`, `Download.Course`: what the pieces of work of a check do, and all of it.
* `Download.verdict`: what a check decides.

## Main results

* `Verification.digestOfReads_eq`: the digest does not depend on the reads.
* `Download.course_iff`: what a check comes to.
* `Download.verified`: what is accepted, and what is left of the file.
-/

namespace Upkeep

/-! ### Reads -/

namespace Digest.Hasher

/-- Pieces are taken in turn as if they were one. -/
theorem take_append (h : Hasher) (first second : ByteArray) :
    h.take (first ++ second) = (h.take first).take second := by
  rw [take, take, take, ByteArray.data_append, Array.foldl_append]

end Digest.Hasher

namespace Verification

variable {content : ByteArray} {reads : List ByteArray} {size : Nat}

/-- Some reads bring some content: each of them something, and no more than one read can bring. -/
structure Cut (content : ByteArray) (reads : List ByteArray) : Prop where
  /-- Together they are the content. -/
  whole : Files.assemble reads = content
  /-- A read that brings nothing would be the end. -/
  something : ∀ read ∈ reads, 0 < read.size
  /-- There is a most that one read brings. -/
  bounded : ∀ read ∈ reads, read.size ≤ readSize

/-- What was taken before some reads does not matter to how they are taken. -/
theorem foldl_take (h : Digest.Hasher) (start : ByteArray) (reads : List ByteArray) :
    reads.foldl Digest.Hasher.take (h.take start) = h.take (reads.foldl (· ++ ·) start) := by
  induction reads generalizing start with
  | nil => rfl
  | cons read reads ih => rw [List.foldl_cons, List.foldl_cons, ← Digest.Hasher.take_append, ih]

/-- **The digest does not depend on the reads.** -/
theorem digestOfReads_eq (algorithm : Digest.Variant) (hcut : Cut content reads) :
    digestOfReads algorithm reads = Digest.hex algorithm content := by
  have htake := foldl_take (Digest.Hasher.start algorithm) .empty reads
  rw [digestOfReads, Digest.hex, ← hcut.whole, Files.assemble, ← htake]
  rfl

/-- The first pieces of some bytes are the first of the bytes. -/
theorem assemble_pieces (bytes : ByteArray) (size count : Nat) :
    Files.assemble ((List.range count).map fun i => bytes.extract (i * size) ((i + 1) * size)) =
      bytes.extract 0 (count * size) := by
  induction count with
  | zero => simp [Files.assemble]
  | succ count ih =>
    rw [Files.assemble, List.range_succ, List.map_append, List.foldl_append]
    rw [Files.assemble] at ih
    rw [ih, List.map_singleton, List.foldl_cons, List.foldl_nil, ByteArray.extract_append_extract,
      Nat.zero_min, Nat.max_eq_right (Nat.mul_le_mul_right size (Nat.le_succ count))]

/-- A piece has something in it, and no more than its size. -/
theorem size_of_mem_pieces (hsize : 0 < size) {piece : ByteArray}
    (h : piece ∈ pieces size content) : 0 < piece.size ∧ piece.size ≤ size := by
  obtain ⟨i, hi, rfl⟩ := List.mem_map.mp h
  have hnext := Nat.mul_le_mul_right size (Nat.succ_le_of_lt (List.mem_range.mp hi))
  have hcount := Nat.div_mul_le_self (content.size + size - 1) size
  rw [ByteArray.size_extract]
  rw [Nat.succ_mul] at *
  omega

/-- Reads that are as long as they can be are a way to read. -/
theorem cut_pieces (content : ByteArray) : Cut content (pieces readSize content) where
  whole := by
    have hcount : content.size ≤ (content.size + readSize - 1) / readSize * readSize := by
      have hdivide := Nat.div_add_mod (content.size + readSize - 1) readSize
      have hmod := Nat.mod_lt (content.size + readSize - 1) (show 0 < readSize by decide)
      rw [Nat.mul_comm]
      omega
    rw [pieces, assemble_pieces]
    refine ByteArray.ext ?_
    rw [ByteArray.data_extract]
    exact Array.extract_eq_self_of_le hcount
  something read hread := (size_of_mem_pieces (by decide) hread).1
  bounded read hread := (size_of_mem_pieces (by decide) hread).2

end Verification

/-- **The digest of a file is that of its content.** -/
theorem contentDigest_eq (algorithm : Digest.Variant) (content : ByteArray) :
    contentDigest algorithm content = Digest.hex algorithm content :=
  Verification.digestOfReads_eq algorithm (Verification.cut_pieces content)

/-- What is taken for the digest of the file at a path. -/
theorem Verification.fileDigest_eq (fs : Files) (path : String) (algorithm : Digest.Variant) :
    fileDigest fs path algorithm =
      match fs.read path with
      | .error cause => .error cause.text
      | .ok content => .ok (Digest.hex algorithm content) := by
  rw [fileDigest]
  cases fs.read path with
  | error cause => rfl
  | ok content => exact congrArg Except.ok (contentDigest_eq algorithm content)

/-! ### Checks -/

/-- What the pieces of work of a check do to files, and what comes of them. A file is read in one
way or another, and it is removed if it can be. -/
def Job.Does : (job : Job) → Files → job.Result → Files → Prop
  | .digest path algorithm, fs, result, fs' =>
    fs' = fs ∧
      match fs.read path with
      | .error cause => result = .error cause.text
      | .ok content => ∃ reads, Verification.Cut content reads ∧
          result = .ok (Verification.digestOfReads algorithm reads)
  | .discard path, fs, (), fs' => fs' = Verification.discard fs path
  | .fetch .., _, _, _ | .rest _, _, _, _ => False

/-- **In whichever way a file is read**, the same comes of it. -/
theorem Job.does_digest_iff {fs fs' : Files} {path : String} {algorithm : Digest.Variant}
    {result : Except String String} : (Job.digest path algorithm).Does fs result fs' ↔
      fs' = fs ∧ result = Verification.fileDigest fs path algorithm := by
  refine and_congr_right fun _ => ?_
  rw [Verification.fileDigest_eq]
  cases fs.read path with
  | error cause => rfl
  | ok content =>
    dsimp only
    constructor
    · rintro ⟨reads, hcut, rfl⟩
      rw [Verification.digestOfReads_eq algorithm hcut]
    · rintro rfl
      exact ⟨_, Verification.cut_pieces content,
        congrArg Except.ok (contentDigest_eq algorithm content).symm⟩

namespace Download

/-- A check, from one state of the files to another. -/
inductive Course (d : DownloadConfig) (c : Candidate) :
    Progress → Files → Outcome → Files → Prop
  /-- It is over. -/
  | finished (outcome : Outcome) (fs : Files) : Course d c (.finished outcome) fs outcome fs
  /-- A piece of work is done. -/
  | more {task : Task} {fs fs₁ fs' : Files} {result : (task.job d c).Result} {outcome : Outcome}
    (hdoes : (task.job d c).Does fs result fs₁)
    (hrest : Course d c (task.advance d c result) fs₁ outcome fs') :
    Course d c (.more task) fs outcome fs'

/-- What a check decides about an artifact. -/
def verdict (c : Candidate) (attempt : Nat) (fs : Files) (path : String) : Outcome :=
  match c.checksum with
  | none => .error ⟨"no checksum in repository metadata", attempt⟩
  | some expected =>
    match fs.read path with
    | .error cause => .error ⟨"cannot read " ++ path ++ ": " ++ cause.text, attempt⟩
    | .ok content =>
      let digest := Digest.hex expected.algorithm content
      if Task.isExpected expected digest then .ok path
      else .error ⟨"checksum mismatch: expected " ++ expected.digest ++ ", got " ++ digest, attempt⟩

/-- The files after a check: the artifact is kept, or it is removed. -/
def settled (fs : Files) (path : String) : Outcome → Files
  | .ok _ => fs
  | .error _ => Verification.discard fs path

variable {d : DownloadConfig} {c : Candidate} {attempt : Nat} {path reason : String}
  {fs fs' : Files} {outcome outcome' : Outcome} {expected : Checksum}

theorem course_finished_iff :
    Course d c (.finished outcome') fs outcome fs' ↔ outcome = outcome' ∧ fs' = fs := by
  constructor
  · rintro ⟨⟩
    exact ⟨rfl, rfl⟩
  · rintro ⟨rfl, rfl⟩
    exact .finished outcome fs'

/-- An artifact that is not to be trusted is removed. -/
theorem course_discarding_iff :
    Course d c (.more (.discarding attempt path reason)) fs outcome fs' ↔
      outcome = .error ⟨reason, attempt⟩ ∧ fs' = Verification.discard fs path := by
  constructor
  · rintro ⟨⟩
    rename_i fs₁ result hdoes hrest
    obtain rfl : fs₁ = Verification.discard fs path := hdoes
    exact course_finished_iff.mp hrest
  · rintro ⟨rfl, rfl⟩
    have hdoes : (Task.job d c (.discarding attempt path reason)).Does fs ()
        (Verification.discard fs path) := rfl
    exact .more hdoes (.finished _ _)

/-- An artifact with a checksum is read first. -/
theorem course_checking_iff : Course d c (.more (.checking attempt path expected)) fs outcome fs' ↔
    Course d c (Task.afterCheck attempt path expected
      (Verification.fileDigest fs path expected.algorithm)) fs outcome fs' := by
  constructor
  · rintro ⟨⟩
    rename_i fs₁ result hdoes hrest
    obtain ⟨rfl, rfl⟩ := Job.does_digest_iff.mp hdoes
    exact hrest
  · intro hrest
    have hdoes : (Task.job d c (.checking attempt path expected)).Does fs
        (Verification.fileDigest fs path expected.algorithm) fs :=
      Job.does_digest_iff.mpr ⟨rfl, rfl⟩
    exact .more hdoes hrest

/-- A rejected artifact is removed. -/
theorem discarded_iff (fs : Files) (path reason : String) (attempt : Nat) :
    (outcome = .error ⟨reason, attempt⟩ ∧ fs' = Verification.discard fs path) ↔
      outcome = .error ⟨reason, attempt⟩ ∧ fs' = settled fs path outcome := by
  refine and_congr_right ?_
  rintro rfl
  rfl

/-- **What a check comes to**, however the file is read: the verdict, and what is left of the file
then. -/
theorem course_iff : Course d c (Task.afterArrival c attempt path) fs outcome fs' ↔
    outcome = verdict c attempt fs path ∧ fs' = settled fs path outcome := by
  rw [Task.afterArrival, verdict]
  cases c.checksum with
  | none => exact course_discarding_iff.trans (discarded_iff fs path _ attempt)
  | some expected =>
    dsimp only
    rw [course_checking_iff, Verification.fileDigest_eq]
    cases fs.read path with
    | error cause => exact course_discarding_iff.trans (discarded_iff fs path _ attempt)
    | ok content =>
      dsimp only
      rw [Task.afterCheck]
      split
      · rw [course_finished_iff]
        refine and_congr_right ?_
        rintro rfl
        rfl
      · exact course_discarding_iff.trans (discarded_iff fs path _ attempt)

/-- A check accepts what can be read and has the digest of the checksum. -/
theorem verdict_eq_ok_iff : verdict c attempt fs path = .ok path ↔
    ∃ expected content, c.checksum = some expected ∧ fs.read path = .ok content ∧
      Text.lowerAscii (Digest.hex expected.algorithm content) =
        Text.lowerAscii expected.digest := by
  rw [verdict]
  cases c.checksum with
  | none => simp
  | some expected =>
    cases fs.read path with
    | error cause => simp
    | ok content => simp [Task.isExpected]

/-- What is not accepted is rejected, for a reason. -/
theorem verdict_cases (c : Candidate) (attempt : Nat) (fs : Files) (path : String) :
    verdict c attempt fs path = .ok path ∨
      ∃ reason, verdict c attempt fs path = .error ⟨reason, attempt⟩ := by
  rw [verdict]
  split
  · exact Or.inr ⟨_, rfl⟩
  · split
    · exact Or.inr ⟨_, rfl⟩
    · dsimp only
      split
      · exact Or.inl rfl
      · exact Or.inr ⟨_, rfl⟩

theorem find?_discard {p : Place} (hp : p ≠ Path.place path) :
    (Verification.discard fs path).find? p = fs.find? p := by
  have hremoved : Verification.discard fs path = (fs.apply (.remove path)).1 := by
    rw [Verification.discard, Files.apply]
    cases fs.remove path <;> rfl
  rw [hremoved]
  refine Files.find?_apply fun path' hpath' => ?_
  obtain rfl := List.mem_singleton.mp hpath'
  exact hp

/-- **What is accepted, and what is left of the file.** The digest of what is read is that of the
whole content, in whichever reads that comes. A check comes to an end, and whichever way it takes,
it accepts the artifact just if there is a checksum, the file can be read and the digest is the one
of the checksum, letter case apart. Then nothing has changed. An artifact that is rejected cannot be
read any more, and nothing but its file has changed. On a machine a check takes one of these
ways. -/
theorem verified (d : DownloadConfig) (c : Candidate) (attempt : Nat) (path : String) (fs : Files) :
    (∀ algorithm content reads, Verification.Cut content reads →
      Verification.digestOfReads algorithm reads = Digest.hex algorithm content) ∧
    (∃ outcome fs', Course d c (Task.afterArrival c attempt path) fs outcome fs') ∧
    (∀ outcome fs', Course d c (Task.afterArrival c attempt path) fs outcome fs' →
      (outcome = .ok path ↔ ∃ expected content, c.checksum = some expected ∧
        fs.read path = .ok content ∧ Text.lowerAscii (Digest.hex expected.algorithm content) =
          Text.lowerAscii expected.digest) ∧
      (outcome = .ok path → fs' = fs) ∧
      (outcome ≠ .ok path → (∃ reason, outcome = .error ⟨reason, attempt⟩) ∧
        (∀ content, fs'.read path ≠ .ok content) ∧
        ∀ p, p ≠ Path.place path → fs'.find? p = fs.find? p)) ∧
    ∀ (setup : Live.Setup) (m : Machine) (algorithm : Digest.Variant),
      (Job.digest path algorithm).Does m.files (Live.perform setup m (.digest path algorithm)).1
        (Live.perform setup m (.digest path algorithm)).2.files ∧
      (Job.discard path).Does m.files (Live.perform setup m (.discard path)).1
        (Live.perform setup m (.discard path)).2.files := by
  refine ⟨fun algorithm content reads => Verification.digestOfReads_eq algorithm,
    ⟨_, _, course_iff.mpr ⟨rfl, rfl⟩⟩, fun outcome fs' hcourse => ?_, fun setup m algorithm =>
    ⟨Job.does_digest_iff.mpr ⟨rfl, rfl⟩, rfl⟩⟩
  obtain ⟨rfl, rfl⟩ := course_iff.mp hcourse
  refine ⟨verdict_eq_ok_iff, fun haccepted => by rw [haccepted]; rfl, fun hrejected => ?_⟩
  obtain ⟨reason, hreason⟩ := (verdict_cases c attempt fs path).resolve_left hrejected
  rw [hreason]
  exact ⟨⟨reason, rfl⟩, read_discard fs path, fun p hp => find?_discard hp⟩

/-- A file that is read in two parts and accepted, and that is removed if there is no checksum. -/
theorem verified_parts :
    let content : ByteArray := ⟨#[1, 2, 3]⟩
    let fs := (Files.empty.perform (Files.writing "a.rpm" content)).1
    let bare : Candidate :=
      { name := "a", arch := "noarch", oldVersion := none, newVersion := "1-1", repo := "updates",
        advisory := none, location := none, checksum := none }
    let c : Candidate := { bare with checksum := some ⟨.sha256, Digest.hex .sha256 content⟩ }
    Verification.digestOfReads .sha256 [⟨#[1]⟩, ⟨#[2, 3]⟩] = Digest.hex .sha256 content ∧
      Course {} c (Task.afterArrival c 1 "a.rpm") fs (.ok "a.rpm") fs ∧
      ∃ reason fs', Course {} bare (Task.afterArrival bare 1 "a.rpm") fs (.error ⟨reason, 1⟩) fs' ∧
        fs'.read "a.rpm" ≠ .ok content := by
  intro content fs bare c
  have hread : fs.read "a.rpm" = .ok content := by rfl
  obtain ⟨hdigest, ⟨outcome, fs₁, hcourse⟩, hverified, -⟩ := verified {} c 1 "a.rpm" fs
  obtain ⟨haccepted, hkept, -⟩ := hverified outcome fs₁ hcourse
  obtain rfl := haccepted.mpr ⟨_, content, rfl, hread, rfl⟩
  obtain rfl := hkept rfl
  obtain ⟨-, ⟨outcome', fs', hcourse'⟩, hverified', -⟩ := verified {} bare 1 "a.rpm" fs
  obtain ⟨haccepted', -, hrejected⟩ := hverified' outcome' fs' hcourse'
  have hne : outcome' ≠ .ok "a.rpm" := by
    intro heq
    obtain ⟨expected, -, hchecksum, -⟩ := haccepted'.mp heq
    cases hchecksum
  obtain ⟨⟨reason, rfl⟩, hgone, -⟩ := hrejected hne
  exact ⟨hdigest .sha256 content [⟨#[1]⟩, ⟨#[2, 3]⟩] ⟨rfl, by decide, by decide⟩, hcourse, reason,
    fs', hcourse', hgone content⟩

end Download

end Upkeep
