import Upkeep.Proofs.Lock.Contest

/-!
# What the lock is worth

At every moment of a contest at most one party has the lock. Who tries to take it gets it if and
only if nobody has it. Who is refused has changed nothing, and is told what the lock file says at
that moment. And what the lock file says is true as long as nobody meddles with it: whatever was in
it before, it is empty once the new holder has emptied it, and then holds exactly his record.

All of this is said twice: of `Lock.acquire`, which does everything at once at some moment of the
contest, and of an attempt whose calls of the system others come between.

## Main definitions

* `Lock.Party.proceed`: an attempt that nobody disturbs.
* `Lock.Contest.Sound`: what the lock is worth.

## Main results

* `Lock.acquire_eq_proceed`: an attempt that nobody disturbs is `Lock.acquire`.
* `Lock.Contest.Evolves.told`: without meddling the lock file tells the truth.
* `Lock.Contest.Inv.sound`: the lock is worth that at every moment.
-/

namespace Upkeep.Lock

/-! ### Opening the lock file -/

/-- A path leads to the lock file that was opened by it; one that was there stays as it is. -/
theorem isAt_openLockFile {fs fs' : Files} {path : String} {identity : Nat}
    (h : openLockFile fs path = (.ok identity, fs')) :
    fs'.IsAt path identity ∧ ∀ identity', fs.IsAt path identity' →
      fs'.IsAt path identity' ∧ fs'.held? path = fs.held? path := by
  have hgrows := Files.grows_createDirs fs (Path.parent path)
  rw [openLockFile] at h
  cases hdirs : fs.createDirs (Path.parent path) with
  | mk fs₁ cause =>
    rw [hdirs] at h hgrows
    cases cause with
    | some cause => cases h
    | none =>
      dsimp only at h
      cases hopen : fs₁.openFile path with
      | error cause =>
        rw [hopen] at h
        cases h
      | ok found =>
        rw [hopen] at h
        cases h
        refine ⟨Files.isAt_openFile hopen, fun identity' hat => ?_⟩
        have hat₁ := hgrows.spares identity' hat
        rw [Files.openFile_of_isAt hat₁] at hopen
        cases hopen
        exact ⟨hat₁, hgrows.held? path⟩

/-- Who reads the lock file is told the holder that it names. -/
theorem holder?_eq {fs : Files} {path : String} {content : ByteArray}
    (h : fs.read path = .ok content) :
    holder? fs path = (Text.decode? content).bind Holder.parse := by
  rw [holder?, Files.readText, h]
  dsimp only
  cases Text.decode? content <;> rfl

/-! ### Taking the lock at once -/

section

variable {s : State} {path : String} {self : Holder} {identity : Nat}

/-- Who finds the lock taken has opened the lock file, and is told what it says. -/
theorem of_alreadyRunning {holder : Option Holder}
    (h : (acquire s path self).1 = .error (.alreadyRunning holder)) :
    ∃ identity fs, openLockFile s.files path = (.ok identity, fs) ∧
      s.held.contains identity = true ∧ holder = holder? fs path ∧
        (acquire s path self).2 = { s with files := fs } := by
  rw [acquire] at h ⊢
  split at h
  · cases h
  · rename_i identity fs hopen
    dsimp only
    split at h
    · rename_i htaken
      cases h
      exact ⟨identity, fs, hopen, htaken, rfl, by rw [if_pos htaken]⟩
    · cases h

/-- **Who takes the lock adds it to those that are held**, and is recorded in the lock file. -/
theorem acquired (h : (acquire s path self).1 = .ok identity) :
    (acquire s path self).2.held = identity :: s.held ∧
      (acquire s path self).2.files.held? path = some (record self) := by
  rw [acquire] at h ⊢
  split at h
  · cases h
  · rename_i identity' fs hopen
    dsimp only
    split at h
    · cases h
    · rename_i hfree
      cases h
      rw [if_neg hfree]
      obtain ⟨fs₁, fs₂, -, -, hperform, hheld⟩ :=
        Files.writing_of_isAt (isAt_openLockFile hopen).1 (record self)
      rw [hperform]
      exact ⟨rfl, hheld⟩

end

/-! ### Attempts alone -/

/-- So many calls of the system by one party, with nobody else about. -/
def Party.proceed (path : String) : Nat → Party → State → Party × State
  | n + 1, .trying self attempt, s =>
    proceed path n (attempt.advance path self s).1 (attempt.advance path self s).2
  | _, p, s => (p, s)

/-- What an attempt comes to, as what the party is doing then. -/
def Party.ofResult (self : Holder) : Except LockError Nat → Party
  | .ok identity => .holding self identity
  | .error e => .refused e

theorem Party.proceed_ofResult (path : String) (n : Nat) (self : Holder)
    (r : Except LockError Nat) (s : State) :
    proceed path n (ofResult self r) s = (ofResult self r, s) := by
  cases n <;> cases r <;> rfl

/-- **An attempt that nobody disturbs** is over after five calls of the system, and is
`Lock.acquire`. -/
theorem acquire_eq_proceed (path : String) (self : Holder) (s : State) :
    (Party.trying self .preparing).proceed path 5 s =
      (.ofResult self (acquire s path self).1, (acquire s path self).2) := by
  rw [Party.proceed, Attempt.advance, acquire, openLockFile]
  cases hdirs : s.files.createDirs (Path.parent path) with
  | mk fs cause =>
    cases cause with
    | some cause => exact Party.proceed_ofResult path 4 self (.error _) _
    | none =>
      dsimp only
      rw [Party.proceed, Attempt.advance]
      cases hopen : fs.openFile path with
      | error cause => exact Party.proceed_ofResult path 3 self (.error _) _
      | ok found =>
        obtain ⟨identity, fs⟩ := found
        dsimp only
        rw [Party.proceed, Attempt.advance]
        cases hheld : s.held.contains identity with
        | true => exact Party.proceed_ofResult path 1 self (.error _) _
        | false =>
          obtain ⟨fs₁, fs₂, hcreate, hfill, hwriting, -⟩ :=
            Files.writing_of_isAt (Files.isAt_openFile hopen) (record self)
          rw [if_neg Bool.false_ne_true, if_neg Bool.false_ne_true, hwriting]
          dsimp only
          rw [Party.proceed, Attempt.advance]
          dsimp only
          rw [hcreate]
          dsimp only
          rw [Party.proceed, Attempt.advance]
          dsimp only
          rw [hfill]
          rfl

namespace Contest

variable {ι : Type} {path : String} {meddling : Bool} {c c' : Contest ι} {i j : ι} {p : Party}
  {self : Holder} {attempt : Attempt} {fs : Files} {held : List Nat} {content : ByteArray}

/-! ### What the lock file says -/

/-- The lock file holds what the party that has the lock has left in it. -/
def Told (path : String) (c : Contest ι) : Prop :=
  ∀ i content, (c.party i).wrote = some content → c.lock.files.held? path = some content

/-- While a party has the lock, the others have left nothing in the file. -/
theorem Inv.wrote_of_ne (inv : c.Inv path) (hi : (c.party i).isLive = true) (hj : j ≠ i) :
    (c.party j).wrote = none := by
  cases hwrote : (c.party j).wrote with
  | none => rfl
  | some content => exact absurd (inv.unique (Party.isLive_of_wrote hwrote) hi) hj

/-- The file that the path leads to is locked if and only if some party has the lock. -/
theorem Inv.not_held (inv : c.Inv path) {identity : Nat} (hspares : c.lock.files.Spares path fs)
    (hat : fs.IsAt path identity) :
    c.lock.held.contains identity = false ↔ ∀ i, (c.party i).isLive = false := by
  rw [← inv.held_eq_nil]
  constructor
  · intro hfree
    refine List.eq_nil_iff_forall_not_mem.mpr fun identity' hmem => ?_
    obtain ⟨i, hgrip⟩ := (inv.gripped identity').mp hmem
    obtain rfl := hat.unique (hspares _ (inv.here i identity' (Party.opened_of_grip hgrip)))
    rw [List.contains_iff_mem.mpr hmem] at hfree
    cases hfree
  · intro hnil
    rw [hnil]
    rfl

/-- Who is refused changes neither the lock nor what the file says, and is told just that. -/
theorem Inv.refused {holder : Option Holder} {s : State} (inv : c.Inv path)
    (hrefused : acquire c.lock path self = (.error (.alreadyRunning holder), s)) :
    s.held = c.lock.held ∧ ∃ content, c.lock.files.held? path = some content ∧
      s.files.held? path = some content ∧ holder = (Text.decode? content).bind Holder.parse := by
  obtain ⟨identity, fs, hopen, htaken, rfl, hleft⟩ := of_alreadyRunning (by rw [hrefused])
  obtain rfl : s = { c.lock with files := fs } := by rw [← hleft, hrefused]
  obtain ⟨hat, hspares⟩ := isAt_openLockFile hopen
  -- whoever has the lock has it of the file that the path leads to
  obtain ⟨i, hgrip⟩ := (inv.gripped identity).mp (List.contains_iff_mem.mp htaken)
  have hthere := inv.here i identity (Party.opened_of_grip hgrip)
  obtain ⟨content, hcontent, hread⟩ := hat.exists_read
  exact ⟨rfl, content, (hspares identity hthere).2.symm.trans hcontent, hcontent, holder?_eq hread⟩

/-- An attempt that neither has nor gets the lock leaves it alone, and what the file says. -/
theorem waits_advance (trying : c.party i = .trying self attempt)
    (hbefore : (c.party i).isLive = false)
    (hafter : (attempt.advance path self c.lock).1.isLive = false) :
    (attempt.advance path self c.lock).2.held = c.lock.held ∧
      ∀ content, c.lock.files.held? path = some content →
        (attempt.advance path self c.lock).2.files.held? path = some content := by
  cases attempt with
  | preparing =>
    have hgrows := Files.grows_createDirs c.lock.files (Path.parent path)
    rw [Attempt.advance]
    cases hdirs : c.lock.files.createDirs (Path.parent path) with
    | mk fs cause =>
      rw [hdirs] at hgrows
      cases cause <;> exact ⟨rfl, fun content h => (hgrows.held? path).trans h⟩
  | opening =>
    rw [Attempt.advance]
    cases hopen : c.lock.files.openFile path with
    | error cause => exact ⟨rfl, fun content h => h⟩
    | ok found =>
      obtain ⟨identity, fs⟩ := found
      refine ⟨rfl, fun content h => ?_⟩
      rw [Files.eq_of_openFile hopen h]
      exact h
  | locking identity =>
    rw [Attempt.advance] at hafter ⊢
    split at hafter
    · rename_i hheld
      rw [if_pos hheld]
      exact ⟨rfl, fun content h => h⟩
    · cases hafter
  | inquiring identity => exact ⟨rfl, fun content h => h⟩
  | emptying identity | recording identity =>
    rw [trying] at hbefore
    cases hbefore

variable [DecidableEq ι]

/-- A party goes on, and leaves in the file what it says. -/
theorem Told.turn (told : c.Told path)
    (hothers : ∀ j content, j ≠ i → (c.party j).wrote = some content →
      c.lock.files.held? path = some content → fs.held? path = some content)
    (hself : ∀ content, p.wrote = some content → fs.held? path = some content) :
    (c.turn i p ⟨fs, held⟩).Told path := by
  intro j content hwrote
  by_cases hj : j = i
  · subst hj
    rw [party_turn_self] at hwrote
    exact hself content hwrote
  · rw [party_turn_of_ne _ _ _ hj] at hwrote
    exact hothers j content hj hwrote (told j content hwrote)

theorem Told.advance (told : c.Told path) (inv : c.Inv path)
    (trying : c.party i = .trying self attempt) :
    (c.turn i (attempt.advance path self c.lock).1 (attempt.advance path self c.lock).2).Told
      path := by
  have hkept : ∀ {p : Party} {held}, p.wrote = none →
      (c.turn i p ⟨c.lock.files, held⟩).Told path := by
    intro p held hp
    refine told.turn (fun j content _ _ h => h) fun content h => ?_
    rw [hp] at h
    cases h
  have hover : (c.party i).isLive = true → ∀ {p : Party} {fs : Files} {held},
      (∀ content, p.wrote = some content → fs.held? path = some content) →
        (c.turn i p ⟨fs, held⟩).Told path := by
    intro hlive p fs held hp
    refine told.turn (fun j content hj hwrote _ => ?_) hp
    rw [inv.wrote_of_ne hlive hj] at hwrote
    cases hwrote
  cases attempt with
  | preparing =>
    have hgrows := Files.grows_createDirs c.lock.files (Path.parent path)
    rw [Attempt.advance]
    cases hdirs : c.lock.files.createDirs (Path.parent path) with
    | mk fs cause =>
      rw [hdirs] at hgrows
      have hheld : ∀ j content, j ≠ i → (c.party j).wrote = some content →
          c.lock.files.held? path = some content → fs.held? path = some content :=
        fun j content _ _ h => (hgrows.held? path).trans h
      cases cause with
      | none => exact told.turn hheld (by simp)
      | some cause => exact told.turn hheld (by simp)
  | opening =>
    rw [Attempt.advance]
    cases hopen : c.lock.files.openFile path with
    | error cause => exact hkept rfl
    | ok found =>
      obtain ⟨identity, fs⟩ := found
      refine told.turn (fun j content _ hwrote h => ?_) (by simp)
      obtain ⟨identity', hgrip⟩ := Option.isSome_iff_exists.mp (Party.isLive_of_wrote hwrote)
      rw [Files.openFile_of_isAt (inv.here j identity' (Party.opened_of_grip hgrip))] at hopen
      cases hopen
      exact h
  | locking identity =>
    rw [Attempt.advance]
    split
    · exact hkept rfl
    · exact hkept rfl
  | inquiring identity =>
    rw [Attempt.advance]
    exact hkept rfl
  | emptying identity =>
    have hat := inv.here i identity (by simp [trying])
    obtain ⟨fs, hcreate, -, hempty⟩ := Files.create_of_isAt hat
    rw [Attempt.advance, hcreate]
    refine hover (by simp [trying, Party.isLive]) fun content hwrote => ?_
    obtain rfl := Option.some.inj hwrote
    exact hempty
  | recording identity =>
    have hat := inv.here i identity (by simp [trying])
    obtain ⟨fs, old, hfill, hold, -, hheld⟩ := Files.fill_of_isAt hat (record self)
    obtain rfl : ByteArray.empty = old :=
      Option.some.inj ((told i _ (by simp [trying])).symm.trans hold)
    rw [Attempt.advance, hfill]
    refine hover (by simp [trying, Party.isLive]) fun content hwrote => ?_
    obtain rfl := Option.some.inj hwrote
    rw [hheld, Files.extract_empty, ByteArray.append_empty]

theorem Step.told (step : Step path false c c') (inv : c.Inv path) (told : c.Told path) :
    c'.Told path := by
  cases step with
  | begins i self free => exact told.turn (fun j content _ _ h => h) (by simp)
  | advances i trying => exact told.advance inv trying
  | releases i holding => exact told.turn (fun j content _ _ h => h) (by simp)
  | dies i =>
    have hfiles : (c.lock.letGo (c.party i).grip).files = c.lock.files := by
      cases (c.party i).grip <;> rfl
    exact told.turn (fun j content _ _ h => hfiles ▸ h) (by simp)
  | drifts fs spares calm => exact fun j content hwrote => (calm rfl).trans (told j content hwrote)

/-- **Without meddling the lock file tells the truth**: it holds exactly the record of the party
that holds the lock, whatever was in it before somebody took the lock. -/
theorem Evolves.told (h : Evolves path false c c') (inv : c.Inv path)
    (hclear : ∀ i, (c.party i).wrote = none) : c'.Told path := by
  induction h with
  | refl =>
    intro i content hwrote
    rw [hclear i] at hwrote
    cases hwrote
  | tail hleads step ih => exact step.told (Evolves.inv hleads inv) ih

/-! ### Soundness -/

/-- What the lock is worth at some moment. -/
structure Sound (path : String) (c : Contest ι) : Prop where
  /-- At most one party has the lock. -/
  single : ∀ i j, (c.party i).isLive = true → (c.party j).isLive = true → i = j
  /-- Who can open the lock file gets the lock if and only if nobody has it. -/
  granted : ∀ self identity fs, openLockFile c.lock.files path = (.ok identity, fs) →
    ((∃ s, acquire c.lock path self = (.ok identity, s)) ↔ ∀ i, (c.party i).isLive = false)
  /-- Who is refused changes neither the lock nor what the file says, and is told just that. -/
  refused : ∀ self holder s, acquire c.lock path self = (.error (.alreadyRunning holder), s) →
    s.held = c.lock.held ∧ ∃ content, c.lock.files.held? path = some content ∧
      s.files.held? path = some content ∧ holder = (Text.decode? content).bind Holder.parse
  /-- Who gets the lock leaves exactly his record in the file. -/
  recorded : ∀ self identity s, acquire c.lock path self = (.ok identity, s) →
    s.files.held? path = some (record self)
  /-- The same of an attempt with others in between: it gets the lock if and only if nobody has
  it when it comes to that. -/
  takes : ∀ i self identity, c.party i = .trying self (.locking identity) →
    (∀ j, (c.party j).isLive = false) ∧
        ((Attempt.locking identity).advance path self c.lock).1 =
          .trying self (.emptying identity) ∨
      (∃ j, (c.party j).isLive = true) ∧
        (Attempt.locking identity).advance path self c.lock =
          (.trying self (.inquiring identity), c.lock)
  /-- It changes nothing before it has the lock. -/
  waits : ∀ i self attempt, c.party i = .trying self attempt → (c.party i).isLive = false →
    (attempt.advance path self c.lock).1.isLive = false →
      (attempt.advance path self c.lock).2.held = c.lock.held ∧
        ∀ content, c.lock.files.held? path = some content →
          (attempt.advance path self c.lock).2.files.held? path = some content
  /-- It is told what the file says when it is refused. -/
  told : ∀ i self identity, c.party i = .trying self (.inquiring identity) →
    ∃ content, c.lock.files.held? path = some content ∧
      (Attempt.inquiring identity).advance path self c.lock =
        (.refused (.alreadyRunning ((Text.decode? content).bind Holder.parse)), c.lock)
  /-- Once nobody has written to the file, and as long as nobody meddles with it, who holds the
  lock has left exactly his record in it. -/
  truthful : (∀ i, (c.party i).wrote = none) → ∀ c', Evolves path false c c' →
    ∀ i self identity, c'.party i = .holding self identity →
      c'.lock.files.held? path = some (record self)

/-- **The lock is worth that at every moment.** -/
theorem Inv.sound (inv : c.Inv path) : c.Sound path where
  single _ _ := inv.unique
  granted := by
    intro self identity fs hopen
    obtain ⟨hat, hspares⟩ := isAt_openLockFile hopen
    rw [← inv.not_held (fun identity' h => (hspares identity' h).1) hat, acquire, hopen]
    dsimp only
    cases c.lock.held.contains identity with
    | true => simp
    | false => simp
  refused _ _ _ := inv.refused
  recorded := by
    intro self identity s hgranted
    have hrecorded := (acquired (by rw [hgranted])).2
    rw [hgranted] at hrecorded
    exact hrecorded
  takes := by
    intro i self identity htrying
    have hat := inv.here i identity (by simp [htrying])
    rw [Attempt.advance]
    cases hheld : c.lock.held.contains identity with
    | false =>
      refine Or.inl ⟨(inv.not_held (.refl _ _) hat).mp hheld, ?_⟩
      rw [if_neg Bool.false_ne_true]
    | true =>
      refine Or.inr ⟨?_, if_pos rfl⟩
      obtain ⟨j, hgrip⟩ := (inv.gripped identity).mp (List.contains_iff_mem.mp hheld)
      exact ⟨j, by rw [Party.isLive, hgrip]; rfl⟩
  waits _ _ _ := waits_advance
  told := by
    intro i self identity htrying
    obtain ⟨content, hheld, hread⟩ := (inv.here i identity (by simp [htrying])).exists_read
    exact ⟨content, hheld, by rw [Attempt.advance, holder?_eq hread]⟩
  truthful := by
    intro hclear c' hevolves i self identity hholding
    exact hevolves.told inv hclear i _ (by simp [hholding])

end Contest

end Upkeep.Lock
