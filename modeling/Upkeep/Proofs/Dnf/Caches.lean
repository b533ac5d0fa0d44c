import Upkeep.Dnf.Manager
import Upkeep.Proofs.Files.Names
import Upkeep.Proofs.Json.Literals
import Upkeep.Proofs.Splitting
import Upkeep.Proofs.Verdicts

/-!
# Whose cache a directory is

The name of a cache directory is the id of a repository, a dash and a hash in hexadecimal digits. A
hash has no dash in it, so the last dash of the name is the one before the hash, whatever dashes and
digits there are in the id: a directory is the cache of one repository at most.

When a repository was refreshed is the time of the newest index in the directories that are its
cache (`Dnf.Stamped`). The path to such an index does not go up, so it leads to what is at its
place, and this place is in the directory. Two states of the files that differ only in the caches of
other repositories thus have the same indices for this one, of the same times, and the newest is the
same.

## Main definitions

* `Dnf.CacheName`: the names of the directories that are the cache of a repository.
* `Dnf.Newest`: the newest among some times.
* `Dnf.Stamped`: the times of the indices of a repository.
* `Dnf.Elsewhere`: two states differ only in the caches of other repositories.

## Main results

* `Dnf.isCacheDirOf_iff`, `Dnf.CacheName.unique`: whose cache a directory is.
* `Dnf.newest_refreshedAt`: when a repository was refreshed.
* `Dnf.stamped_congr`: the caches of other repositories make no difference.
* `Dnf.caches_apart`: neither to what is listed nor to what is refreshed.
-/

namespace Upkeep

/-! ### The newest time -/

namespace Instant

variable {a b c : Instant}

theorem before_trans (hab : a.before b = true) (hbc : b.before c = true) : a.before c = true := by
  simp only [before, Bool.or_eq_true, Bool.and_eq_true, decide_eq_true_eq, beq_iff_eq] at *
  omega

theorem before_or_before (hac : a.before c = true) (b : Instant) :
    a.before b = true ∨ b.before c = true := by
  simp only [before, Bool.or_eq_true, Bool.and_eq_true, decide_eq_true_eq, beq_iff_eq] at *
  omega

end Instant

namespace Dnf

/-- The newest among some times; nothing if there is none. -/
def Newest (times : Instant → Prop) : Option Instant → Prop
  | none => ∀ time, ¬times time
  | some time => times time ∧ ∀ other, times other → time.before other = false

theorem Newest.congr {times times' : Instant → Prop} {newest : Option Instant}
    (h : Newest times newest) (hsame : ∀ time, times time ↔ times' time) :
    Newest times' newest := by
  obtain rfl : times = times' := funext fun time => propext (hsame time)
  exact h

/-- There is one newest time at most. -/
theorem Newest.unique {times : Instant → Prop} {newest newest' : Option Instant}
    (h : Newest times newest) (h' : Newest times newest') : newest = newest' := by
  cases newest with
  | none =>
    cases newest' with
    | none => rfl
    | some time' => exact absurd h'.1 (h time')
  | some time =>
    cases newest' with
    | none => exact absurd h.1 (h' time)
    | some time' =>
      have hle := h.2 time' h'.1
      have hge := h'.2 time h.1
      simp only [Instant.before, Bool.or_eq_false_iff, Bool.and_eq_false_iff,
        decide_eq_false_iff_not, beq_eq_false_iff_ne] at hle hge
      have hsecond : time.second = time'.second := by omega
      have hfraction : time.fraction = time'.fraction := by omega
      exact congrArg some (by cases time; cases time'; simp_all)

/-- What is not before the later of two times is before neither. -/
theorem before_of_later {a b c : Instant} (h : c.before (Manager.later a b) = false) :
    c.before a = false ∧ c.before b = false := by
  rw [Manager.later] at h
  split at h
  · rename_i hlater
    refine ⟨Bool.eq_false_iff.mpr fun hbefore => ?_, h⟩
    rw [Instant.before_trans hbefore hlater] at h
    cases h
  · rename_i hearlier
    refine ⟨h, Bool.eq_false_iff.mpr fun hbefore => ?_⟩
    rcases Instant.before_or_before hbefore a with hfirst | hsecond
    · rw [hfirst] at h
      cases h
    · exact hearlier hsecond

/-- Going through times and keeping the later one finds the newest. -/
theorem newest_foldl (time : Instant) (times : List Instant) :
    Newest (· ∈ time :: times) (some (times.foldl Manager.later time)) := by
  induction times generalizing time with
  | nil =>
    refine ⟨List.mem_singleton_self time, fun other hother => ?_⟩
    obtain rfl := List.mem_singleton.mp hother
    simp [Instant.before]
  | cons next times ih =>
    obtain ⟨hmem, hnewest⟩ := ih (Manager.later time next)
    obtain ⟨htime, hnext⟩ := before_of_later (hnewest _ List.mem_cons_self)
    rw [List.foldl_cons]
    refine ⟨?_, fun other hother => ?_⟩
    · have hlater : Manager.later time next ∈ [time, next] := by
        rw [Manager.later]
        split <;> simp
      rcases List.mem_cons.mp hmem with heq | hmem
      · rw [heq]
        exact List.mem_append_left times hlater
      · exact List.mem_cons_of_mem _ (List.mem_cons_of_mem _ hmem)
    · rcases List.mem_cons.mp hother with rfl | hother
      · exact htime
      · rcases List.mem_cons.mp hother with rfl | hother
        · exact hnext
        · exact hnewest other (List.mem_cons_of_mem _ hother)

/-! ### Names of cache directories -/

/-- The name of a directory that is the cache of a repository: the id, a dash and a hash. -/
def CacheName (id dir : String) : Prop :=
  ∃ hash : String, hash ≠ "" ∧ (∀ c ∈ hash.toList, Text.isHexDigit c = true) ∧
    dir = id ++ "-" ++ hash

variable {id dir : String}

/-- **Which directories are the cache of a repository.** -/
theorem isCacheDirOf_iff : isCacheDirOf id dir = true ↔ CacheName id dir := by
  rw [isCacheDirOf]
  constructor
  · intro h
    split at h
    · rename_i id' hash hcut
      obtain ⟨⟨hid, hsome⟩, hhex⟩ : (String.ofList id' = id ∧ hash ≠ []) ∧
          ∀ c ∈ hash, Text.isHexDigit c = true := by
        simpa using h
      refine ⟨String.ofList hash, ?_, by simpa using hhex, ?_⟩
      · exact fun hempty => hsome (by simpa using congrArg String.toList hempty)
      · rw [← hid, ← String.toList_inj, Text.eq_append_of_cutLast hcut]
        simp
    · cases h
  · rintro ⟨hash, hsome, hhex, rfl⟩
    have hdash : '-' ∉ hash.toList := fun hmem => absurd (hhex _ hmem) (by decide)
    have hcut : Text.cutLast '-' (id ++ "-" ++ hash).toList = some (id.toList, hash.toList) := by
      simpa using Text.cutLast_append hdash id.toList
    rw [hcut]
    simpa [hsome] using hhex

/-- **A directory is the cache of one repository at most.** -/
theorem CacheName.unique {id' : String} (h : CacheName id dir) (h' : CacheName id' dir) :
    id = id' := by
  rw [← isCacheDirOf_iff, isCacheDirOf] at h h'
  split at h
  · rename_i id'' hash hcut
    rw [hcut] at h'
    simp only [Bool.and_eq_true, beq_iff_eq] at h h'
    exact h.1.1.symm.trans h'.1.1
  · cases h

/-- The name of a cache directory is a name. -/
theorem CacheName.stepOf?_eq (h : CacheName id dir) : Path.stepOf? dir = some (.enter dir) := by
  obtain ⟨hash, -, -, rfl⟩ := h
  have hdash : '-' ∈ (id ++ "-" ++ hash).toList := by simp
  refine Path.stepOf?_eq_enter.mpr ⟨rfl, ?_, ?_, ?_⟩ <;>
    exact fun heq => absurd (heq ▸ hdash) (by decide)

/-! ### When a repository was refreshed -/

namespace Manager

/-- The path of the index in a cache directory. -/
def index (d : Manager) (dir : String) : String :=
  Path.join (Path.join d.cache dir) "repodata/repomd.xml"

end Manager

variable {d : Manager} {fs fs' : Files} {time : Instant}

/-- The times of the indices in the directories that are the cache of a repository. -/
def Stamped (d : Manager) (fs : Files) (id : String) (time : Instant) : Prop :=
  ∃ dir ∈ fs.names d.cache, CacheName id dir ∧ fs.modified? (d.index dir) = some time

/-- **When a repository was refreshed**: the time of its newest index. -/
theorem newest_refreshedAt (d : Manager) (fs : Files) (id : String) :
    Newest (Stamped d fs id) (d.refreshedAt fs id) := by
  have hmem : ∀ time, Stamped d fs id time ↔ time ∈
      ((fs.names d.cache).filter (isCacheDirOf id)).filterMap fun dir =>
        fs.modified? (d.index dir) := by
    intro time
    simp only [Stamped, List.mem_filterMap, List.mem_filter, isCacheDirOf_iff, and_assoc]
  rw [Manager.refreshedAt]
  refine Newest.congr ?_ fun time => (hmem time).symm
  unfold Manager.index
  split
  · rename_i hnone
    rw [hnone]
    exact fun time => List.not_mem_nil
  · rename_i first times hsome
    rw [hsome]
    exact newest_foldl first times

/-- What the package manager lists, with the files as they are then. -/
def Lists (d : Manager) (fs : Files) (listed : List Repository) : Prop :=
  ∃ around m m', d.repositories around m = (.ok listed, m') ∧ m'.files = fs

theorem Lists.lastRefreshed_eq {listed : List Repository} {r : Repository} (h : Lists d fs listed)
    (hr : r ∈ listed) : r.lastRefreshed = d.refreshedAt fs r.id := by
  obtain ⟨around, m, m', hlisted, rfl⟩ := h
  rw [Manager.repositories] at hlisted
  split at hlisted
  · cases hlisted
  · cases hlisted
    obtain ⟨id, -, rfl⟩ := List.mem_map.mp hr
    rfl

/-- Whatever its program prints is listed. -/
theorem lists_output (d : Manager) (fs : Files) (output : String)
    (hpassable : Command.isPassable { program := d.program, args := repositoriesArgs } = true)
    (hlimit : 0 < d.metadataLimit.nanos) :
    Lists d fs ((parseRepositories output).map fun id => ⟨id, d.refreshedAt fs id⟩) := by
  let around : Surroundings :=
    { programs := fun _ => some { output := output.toUTF8 }
      web := fun _ => .unanswered ""
      mail := .unreachable "" }
  have hquick : (some d.metadataLimit).filter (fun l => l.nanos = 0) = none := by
    simpa [Option.filter_eq_none_iff] using Nat.ne_of_gt hlimit
  have hprinted : Text.decodeLossy output.toByteArray = output := Text.decodeLossy_toUTF8 output
  have hask : d.ask around d.program repositoriesArgs (Machine.start fs) =
      (.ok output, { Machine.start fs with
        log := [{ program := d.program, args := repositoriesArgs }] }) := by
    simp [Manager.ask, Machine.execute, hpassable, Machine.start, around, Machine.await, hquick,
      Machine.isReached, outputOf, ExitStatus.isSuccess, hprinted, Machine.finish]
  exact ⟨around, Machine.start fs, _, by rw [Manager.repositories, hask]; rfl, rfl⟩

/-! ### The caches of other repositories -/

/-- A place is in the cache of another repository, or is one that all caches are in. -/
def Apart (d : Manager) (id : String) (p : Place) : Prop :=
  p <+: Path.place d.cache ∨
    ∃ other dir, other ≠ id ∧ CacheName other dir ∧ Path.place d.cache ++ [dir] <+: p

/-- Two states of the files differ only in the caches of other repositories, in whether these are
there, and in the directories that all caches are in. -/
def Elsewhere (d : Manager) (id : String) (fs fs' : Files) : Prop :=
  ∀ p, fs'.find? p ≠ fs.find? p → Apart d id p

theorem Elsewhere.symm (h : Elsewhere d id fs fs') : Elsewhere d id fs' fs :=
  fun p hp => h p (Ne.symm hp)

/-- **Changes in the caches of other repositories**, whichever and however many they are. -/
theorem elsewhere_perform {steps : List Files.Step}
    (h : ∀ step ∈ steps, ∀ path ∈ step.paths, Apart d id (Path.place path)) (fs : Files) :
    Elsewhere d id fs (fs.perform steps).1 := by
  induction steps generalizing fs with
  | nil => exact fun p hp => absurd rfl hp
  | cons step steps ih =>
    obtain ⟨hstep, hsteps⟩ := List.forall_mem_cons.mp h
    have hfirst : Elsewhere d id fs (fs.apply step).1 := by
      intro p hp
      by_contra hapart
      exact hp (Files.find?_apply fun path hpath heq => hapart (heq ▸ hstep path hpath))
    rw [Files.perform]
    split
    · rename_i fs' cause happly
      rw [happly] at hfirst
      exact hfirst
    · rename_i fs' happly
      rw [happly] at hfirst
      intro p hp
      by_cases hlater : (fs'.perform steps).1.find? p = fs'.find? p
      · exact hfirst p (hlater ▸ hp)
      · exact ih hsteps fs' p hlater

/-- What is in the cache of the repository is the same. -/
theorem Elsewhere.find?_eq (h : Elsewhere d id fs fs') (hdir : CacheName id dir) (more : Place) :
    fs'.find? (Path.place d.cache ++ dir :: more) =
      fs.find? (Path.place d.cache ++ dir :: more) := by
  by_contra hdiffer
  rcases h _ hdiffer with ⟨rest, hrest⟩ | ⟨other, dir', hother, hdir', rest, hrest⟩
  · have hlength := congrArg List.length hrest
    simp only [List.length_append, List.length_cons] at hlength
    omega
  · rw [List.append_assoc, List.append_cancel_left_eq, List.singleton_append,
      List.cons.injEq] at hrest
    obtain ⟨rfl, -⟩ := hrest
    exact hother (hdir'.unique hdir)

theorem steps_index (hdir : CacheName id dir) (hslash : '/' ∉ dir.toList) :
    Path.steps (d.index dir) =
      Path.steps d.cache ++ [.enter dir, .enter "repodata", .enter "repomd.xml"] := by
  have hindex : Path.steps "repodata/repomd.xml" = [.enter "repodata", .enter "repomd.xml"] := by
    decide
  rw [Manager.index, Path.steps_join (by decide), Path.steps_join_name hdir.stepOf?_eq hslash,
    hindex, List.append_assoc]
  rfl

/-- An index that is there in one state is there in the other, with its time. -/
theorem Stamped.of_elsewhere (hs : fs.Sound) (hs' : fs'.Sound) (hup : .up ∉ Path.steps d.cache)
    (h : Elsewhere d id fs fs') (hstamped : Stamped d fs' id time) : Stamped d fs id time := by
  obtain ⟨dir, hmem, hdir, htime⟩ := hstamped
  obtain ⟨hroot, hthere⟩ := Files.mem_names.mp hmem
  have hslash : '/' ∉ dir.toList := hs'.named _ hthere dir (by simp)
  have hsteps := steps_index (d := d) hdir hslash
  have hplace : Path.place (d.index dir) =
      Path.place d.cache ++ [dir, "repodata", "repomd.xml"] := by
    rw [Path.place, hsteps, Path.walk_append]
    simp [Path.place, Path.Step.from]
  -- the file in one state is at the same place in the other
  obtain ⟨place, identity, content, hlook⟩ : ∃ place identity content,
      fs'.look (d.index dir) = .ok (place, .file identity content (some time)) := by
    rw [Files.modified?] at htime
    split at htime
    · rename_i place identity content modified hlook
      exact ⟨place, identity, content, htime ▸ hlook⟩
    · cases htime
  obtain rfl := Files.place_of_look hlook
  have hentry := hs'.tree.find?_of_look hlook
  rw [hplace, h.find?_eq hdir] at hentry
  -- so all the directories on the way are there too
  have hparent := hs.tree _ (by rw [hentry]; simp)
  have hway : Path.place d.cache ++ [dir] <+:
      (Path.place d.cache ++ [dir, "repodata", "repomd.xml"]).dropLast := by
    simp [List.dropLast_append_of_ne_nil, List.prefix_append_right_inj]
  have hdirectory := hs.tree.directory hparent hway
  have hcache := hs.tree.directory hdirectory (List.prefix_append _ _)
  have hup' : .up ∉ Path.steps (d.index dir) := by simp [hsteps, hup]
  refine ⟨dir, Files.mem_names.mpr ⟨hs.tree.look_congr hup hroot hcache, by simp [hdirectory]⟩,
    hdir, ?_⟩
  rw [Files.modified?, hs.tree.look_congr hup' hlook (hplace ▸ hentry)]

/-- **The caches of other repositories make no difference** to the indices of a repository. -/
theorem stamped_congr (hs : fs.Sound) (hs' : fs'.Sound) (hup : .up ∉ Path.steps d.cache)
    (h : Elsewhere d id fs fs') (time : Instant) : Stamped d fs id time ↔ Stamped d fs' id time :=
  ⟨.of_elsewhere hs' hs hup h.symm, .of_elsewhere hs hs' hup h⟩

theorem refreshedAt_congr (hs : fs.Sound) (hs' : fs'.Sound) (hup : .up ∉ Path.steps d.cache)
    (h : Elsewhere d id fs fs') : d.refreshedAt fs id = d.refreshedAt fs' id :=
  ((newest_refreshedAt d fs id).congr (stamped_congr hs hs' hup h)).unique
    (newest_refreshedAt d fs' id)

variable {listed listed' : List Repository}

/-- So it is listed as the same. -/
theorem Lists.eq_of_elsewhere (h : Lists d fs listed) (h' : Lists d fs' listed') (hs : fs.Sound)
    (hs' : fs'.Sound) (hup : .up ∉ Path.steps d.cache) (helsewhere : Elsewhere d id fs fs') :
    ∀ r ∈ listed, ∀ r' ∈ listed', r.id = id → r'.id = id → r = r' := by
  rintro r hr r' hr' rfl hid
  have hlast := h.lastRefreshed_eq hr
  have hlast' := h'.lastRefreshed_eq hr'
  rw [hid, ← refreshedAt_congr hs hs' hup helsewhere, ← hlast] at hlast'
  obtain ⟨id', last'⟩ := r'
  cases hid
  cases hlast'
  rfl

/-- What is listed as the same is refreshed if the other is. -/
theorem refreshed_of_same {only : List String} {maxAge : Span} {now : Instant}
    (hlisted : id ∈ listed.map Repository.id → id ∈ listed'.map Repository.id)
    (hsame : ∀ r ∈ listed, ∀ r' ∈ listed', r.id = id → r'.id = id → r = r')
    (h : ∃ r ∈ Metadata.allowed only listed, r.id = id ∧ r.isStale maxAge now = true) :
    ∃ r ∈ Metadata.allowed only listed', r.id = id ∧ r.isStale maxAge now = true := by
  obtain ⟨r, hr, hid, hstale⟩ := h
  obtain ⟨hmem, honly⟩ := Metadata.mem_allowed.mp hr
  obtain ⟨r', hr', hid'⟩ := List.mem_map.mp (hlisted (List.mem_map.mpr ⟨r, hmem, hid⟩))
  obtain rfl := hsame r hmem r' hr' hid hid'
  exact ⟨r, Metadata.mem_allowed.mpr ⟨hr', honly⟩, hid, hstale⟩

/-- **The caches of other repositories make no difference to a repository**, neither to when it was
refreshed last, as far as the listing tells, nor to whether it is refreshed again. -/
theorem caches_apart (d : Manager) :
    (∀ id dir, isCacheDirOf id dir = true ↔ CacheName id dir) ∧
    (∀ dir id id', CacheName id dir → CacheName id' dir → id = id') ∧
    (∀ fs listed, Lists d fs listed →
      ∀ r ∈ listed, Newest (Stamped d fs r.id) r.lastRefreshed) ∧
    (∀ id fs steps, (∀ step ∈ steps, ∀ path ∈ Files.Step.paths step, Apart d id (Path.place path)) →
      Elsewhere d id fs (fs.perform steps).1) ∧
    ∀ id fs fs' listed listed', Lists d fs listed → Lists d fs' listed' → fs.Sound → fs'.Sound →
      .up ∉ Path.steps d.cache → Elsewhere d id fs fs' →
        (∀ r ∈ listed, ∀ r' ∈ listed', r.id = id → r'.id = id → r = r') ∧
        ∀ (only : List String) (maxAge limit : Span) (now : Instant)
          (answer answer' : Answer (Except String (List Repository))) (rest rest' : History)
          (result result' : Except RunError Metadata.Summary),
          (id ∈ listed.map Repository.id ↔ id ∈ listed'.map Repository.id) →
          answer.value = .ok listed → answer'.value = .ok listed' →
          (Metadata.ensureFresh only maxAge limit now).Leads
            (⟨.listRepositories, answer⟩ :: rest) result →
          (Metadata.ensureFresh only maxAge limit now).Leads
            (⟨.listRepositories, answer'⟩ :: rest') result' →
          ((∃ e ∈ rest, e.request = .refresh id limit) ↔
            ∃ e ∈ rest', e.request = .refresh id limit) := by
  refine ⟨fun _ _ => isCacheDirOf_iff, fun _ _ _ => CacheName.unique,
    fun fs listed hlists r hr => ?_, fun id fs steps hsteps => elsewhere_perform hsteps fs,
    fun id fs fs' listed listed' hlists hlists' hs hs' hup helsewhere => ?_⟩
  · rw [hlists.lastRefreshed_eq hr]
    exact newest_refreshedAt d fs r.id
  have hsame := hlists.eq_of_elsewhere hlists' hs hs' hup helsewhere
  refine ⟨hsame, fun only maxAge limit now answer answer' rest rest' result result' hlisted hanswer
    hanswer' hleads hleads' => ?_⟩
  rw [Metadata.refreshed_iff hleads hanswer, Metadata.refreshed_iff hleads' hanswer']
  exact ⟨refreshed_of_same hlisted.mp hsame, refreshed_of_same hlisted.mpr
    fun r hr r' hr' hid hid' => (hsame r' hr' r hr hid' hid).symm⟩

/-- The changes that put an index of some second into a cache directory. -/
def indexing (dir : String) (second : Int) : List Files.Step :=
  let path := "/var/cache/dnf/" ++ dir ++ "/repodata/repomd.xml"
  Files.placing path .empty ++ [.touch path ⟨second, 0⟩]

/-- Files with two caches of the repository `fedora-cisco`. -/
def cached : Files :=
  (Files.empty.perform
    (indexing "fedora-cisco-0123abcd" 1000 ++ indexing "fedora-cisco-89ab" 3000)).1

/-- The caches of two repositories with similar ids: one comes and is touched, one comes and
goes. -/
def similar : List Files.Step :=
  indexing "fedora-cisco-openh264-fedcba98" 9000 ++ indexing "fedora-abcd" 5000 ++
    [.remove "/var/cache/dnf/fedora-abcd/repodata/repomd.xml"]

/-- A repository that was refreshed too long ago is refreshed with these caches and without them. -/
theorem caches_apart_similar :
    let d : Manager := { metadataLimit := ⟨1⟩, applyLimit := ⟨1⟩ }
    let cisco : Repository := ⟨"fedora-cisco", some ⟨3000, 0⟩⟩
    let refreshes (reply : Timed (Except String Unit)) : History :=
      [⟨.refresh "fedora-cisco" ⟨1⟩, ⟨reply, false, false⟩⟩]
    Elsewhere d "fedora-cisco" cached (cached.perform similar).1 ∧
      Lists d cached [cisco] ∧ Lists d (cached.perform similar).1 [cisco] ∧
      Newest (Stamped d cached "fedora-cisco") cisco.lastRefreshed ∧
      ((∃ e ∈ refreshes (.inTime (.ok ())), e.request = .refresh "fedora-cisco" ⟨1⟩) ↔
        ∃ e ∈ refreshes .expired, e.request = .refresh "fedora-cisco" ⟨1⟩) := by
  intro d cisco refreshes
  obtain ⟨-, -, hnewest, helsewhere, hrefreshed⟩ := caches_apart d
  have hplaces : ∀ step ∈ similar, ∀ path ∈ Files.Step.paths step,
      Path.place path <+: Path.place d.cache ∨
        Path.place d.cache ++ ["fedora-cisco-openh264-fedcba98"] <+: Path.place path ∨
        Path.place d.cache ++ ["fedora-abcd"] <+: Path.place path := by
    decide +kernel
  have hsimilar := helsewhere "fedora-cisco" cached similar fun step hstep path hpath => by
    rcases hplaces step hstep path hpath with habove | hlonger | hshorter
    · exact Or.inl habove
    · exact Or.inr ⟨"fedora-cisco-openh264", _, by decide, isCacheDirOf_iff.mp (by decide), hlonger⟩
    · exact Or.inr ⟨"fedora", _, by decide, isCacheDirOf_iff.mp (by decide), hshorter⟩
  have hlists : ∀ fs, d.refreshedAt fs "fedora-cisco" = cisco.lastRefreshed →
      Lists d fs [cisco] := by
    intro fs hfs
    have hprinted : parseRepositories "repo id  repo name\nfedora-cisco  Cisco\n" =
        ["fedora-cisco"] := by
      decide +kernel
    have houtput := lists_output d fs "repo id  repo name\nfedora-cisco  Cisco\n"
      (by simp only [Command.isPassable, String.contains_char_eq]; decide +kernel) Nat.zero_lt_one
    rw [hprinted, List.map_singleton, hfs] at houtput
    exact houtput
  have hsound : cached.Sound := Files.sound_empty.perform _
  have hsound' := hsound.perform similar
  have hnewest₀ : d.refreshedAt cached "fedora-cisco" = cisco.lastRefreshed := by decide +kernel
  have hcached := hlists cached hnewest₀
  have hlater := hlists (cached.perform similar).1
    ((refreshedAt_congr hsound hsound' (by decide) hsimilar).symm.trans hnewest₀)
  refine ⟨hsimilar, hcached, hlater, hnewest cached [cisco] hcached cisco List.mem_cons_self, ?_⟩
  let answer : Answer (Except String (List Repository)) := ⟨.ok [cisco], false, false⟩
  exact (hrefreshed "fedora-cisco" cached _ [cisco] [cisco] hcached hlater hsound hsound'
    (by decide) hsimilar).2 [] ⟨5000⟩ ⟨1⟩ ⟨10000, 0⟩ answer answer _ _ _ _ Iff.rfl rfl rfl
      ⟨_, _, rfl, _, _, rfl, rfl, rfl⟩ ⟨_, _, rfl, _, _, rfl, rfl, rfl⟩

end Dnf

end Upkeep
