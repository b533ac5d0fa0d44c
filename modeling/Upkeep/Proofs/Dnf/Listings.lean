import Mathlib.Data.List.Forall2
import Upkeep.Proofs.Dnf.Upgrades
import Upkeep.Proofs.Splitting

/-!
# Listings read back

What is asked of rpm and dnf comes in a format that the question lays down: one line for each
package, and tabs between the fields. Reading undoes that format. Each line is read by itself, so
whatever else is printed between the lines is passed over as long as it is not of the same form, and
it takes no line before or after it along.

What is read is not quite what was printed. A version loses an epoch of zero, the digits of a digest
are put in lower case, and a checksum of an unknown kind is none; the location has two spellings for
being absent. `Offer.ReadAs` says this field by field, without reading anything.

## Main definitions

* `IsField`: what may stand between tabs.
* `Offer`, `Row`, `listing`: upgrades and other lines, and what is printed of them.
* `Offer.ReadAs`: an upgrade against the candidate that is read.
* `lastVersion`: the version of a package that is listed last.

## Main results

* `fields_row`: fields are read as they were printed.
* `filterMap_lines_listing`: lines are read one by one.
* `Offer.Proper.read`, `upgradeOfLine_eq_none_iff`: what is read of one line.
* `checksumOfField_eq_some_iff`: which checksums are read.
* `listings_read`: what is read of whole listings.
-/

namespace Upkeep

namespace Dnf

open Text

/-! ### Rows of fields -/

/-- A field can be told from what is around it: there are no tabs and no line endings in it, and no
blanks around it. -/
def IsField (cs : List Char) : Prop := (∀ c ∈ cs, c ∉ ['\t', '\r', '\n']) ∧ Trimmed cs

-- the characters of the list are looked at, and not all characters
instance : DecidablePred IsField := fun cs =>
  @instDecidableAnd _ _ (List.decidableBAll (· ∉ ['\t', '\r', '\n']) cs) inferInstance

/-- Fields with tabs between them. -/
def row (fs : List String) : List Char := ['\t'].intercalate (fs.map String.toList)

variable {α β : Type} {fs : List String} {c : Char}

/-- What is in a row is a tab or in a field. -/
theorem mem_row (h : c ∈ row fs) : c = '\t' ∨ ∃ f ∈ fs, c ∈ f.toList := by
  induction fs with
  | nil => cases h
  | cons f fs ih =>
    have hlater : c ∈ row fs → c = '\t' ∨ ∃ g ∈ f :: fs, c ∈ g.toList := fun hc =>
      (ih hc).imp_right fun ⟨g, hg, hmem⟩ => ⟨g, List.mem_cons_of_mem _ hg, hmem⟩
    cases fs with
    | nil => exact Or.inr ⟨f, List.mem_cons_self, by simpa [row] using h⟩
    | cons g fs =>
      have hsplit : row (f :: g :: fs) = f.toList ++ ['\t'] ++ row (g :: fs) :=
        List.intercalate_cons_cons
      rw [hsplit, List.mem_append, List.mem_append, List.mem_singleton] at h
      rcases h with (hfirst | htab) | hrest
      · exact Or.inr ⟨f, List.mem_cons_self, hfirst⟩
      · exact Or.inl htab
      · exact hlater hrest

/-- A row of fields is one line. -/
theorem not_mem_row (hfs : ∀ f ∈ fs, IsField f.toList) : '\n' ∉ row fs ∧ '\r' ∉ row fs := by
  have hplain : ∀ c ∈ row fs, c = '\t' ∨ c ∉ ['\t', '\r', '\n'] := fun c hc =>
    (mem_row hc).imp_right fun ⟨f, hf, hmem⟩ => (hfs f hf).1 c hmem
  constructor
  · intro hmem
    rcases hplain _ hmem with htab | hnot
    · exact absurd htab (by decide)
    · exact hnot (by simp)
  · intro hmem
    rcases hplain _ hmem with htab | hnot
    · exact absurd htab (by decide)
    · exact hnot (by simp)

/-- **Fields are read as they were printed.** -/
theorem fields_row (hne : fs ≠ []) (hfs : ∀ f ∈ fs, IsField f.toList) :
    fields (row fs) = fs.map String.toList := by
  have hsplit : splitOn '\t' (row fs) = fs.map String.toList := by
    rw [splitOn_eq, row]
    refine List.splitOn_intercalate '\t' (fun cs hcs htab => ?_) (by simpa using hne)
    obtain ⟨f, hf, rfl⟩ := List.mem_map.mp hcs
    exact (hfs f hf).1 _ htab (by simp)
  rw [fields, hsplit, List.map_congr_left (g := id), List.map_id]
  intro cs hcs
  obtain ⟨f, hf, rfl⟩ := List.mem_map.mp hcs
  exact (hfs f hf).2.trim_eq

/-- The ending of a line is in no field. -/
theorem fields_dropCarriageReturn (line : List Char) :
    fields (dropCarriageReturn line) = fields line :=
  map_trim_splitOn_dropCarriageReturn (by decide) line

/-! ### Listings -/

/-- A line of what a package tool prints. -/
inductive Row (α : Type) where
  /-- The line of a record. -/
  | record (a : α)
  /-- Any other line. -/
  | noise (line : List Char)

namespace Row

/-- The record of a line. -/
def record? : Row α → Option α
  | record a => some a
  | noise _ => none

/-- The line. -/
def line (print : α → List Char) : Row α → List Char
  | record a => print a
  | noise cs => cs

/-- Records are of one kind, and other lines of another. -/
def Fits (proper : α → Prop) (garbled : List Char → Prop) : Row α → Prop
  | record a => proper a
  | noise cs => '\n' ∉ cs ∧ garbled cs

instance {proper : α → Prop} {garbled : List Char → Prop} [DecidablePred proper]
    [DecidablePred garbled] : DecidablePred (Fits proper garbled)
  | record a => inferInstanceAs (Decidable (proper a))
  | noise cs => inferInstanceAs (Decidable ('\n' ∉ cs ∧ garbled cs))

end Row

/-- The records among lines. -/
def records (rows : List (Row α)) : List α := rows.filterMap Row.record?

/-- The lines of a listing. -/
def listing (print : α → List Char) (rows : List (Row α)) : String :=
  String.ofList (ofLines (rows.map (Row.line print)))

section

variable {print : α → List Char} {proper : α → Prop} {garbled : List Char → Prop}
  {rows : List (Row α)} {read : List Char → Option β}

/-- **Lines are read one by one**, whatever they are, by a reader that does not look at their
endings. -/
theorem filterMap_lines_listing (hread : ∀ cs, read (dropCarriageReturn cs) = read cs)
    (hfeed : ∀ row ∈ rows, '\n' ∉ row.line print) :
    (lines (listing print rows).toList).filterMap read =
      rows.filterMap fun row => read (row.line print) := by
  rw [listing, String.toList_ofList, lines_ofLines, List.filterMap_map, List.filterMap_map]
  · exact List.filterMap_congr fun row _ => hread _
  · intro cs hcs
    obtain ⟨row, hrow, rfl⟩ := List.mem_map.mp hcs
    exact hfeed row hrow

/-- What is read of lines of which only the records are not passed over. -/
theorem filterMap_records (hnoise : ∀ cs, garbled cs → read cs = none)
    (hrows : ∀ row ∈ rows, row.Fits proper garbled) :
    (rows.filterMap fun row => read (row.line print)) =
      (records rows).filterMap fun a => read (print a) := by
  rw [records, List.filterMap_filterMap]
  refine List.filterMap_congr fun row hrow => ?_
  cases row with
  | record a => rfl
  | noise cs => exact hnoise cs (hrows _ hrow).2

theorem mem_records {a : α} (h : a ∈ records rows) : Row.record a ∈ rows := by
  obtain ⟨row, hrow, heq⟩ := List.mem_filterMap.mp h
  cases row with
  | record b =>
    cases heq
    exact hrow
  | noise cs => cases heq

theorem records_map_record (as : List α) : records (as.map Row.record) = as := by
  rw [records, List.filterMap_map]
  exact List.filterMap_some

/-- A listing without other lines is of the kinds that a listing with them is of. -/
theorem fits_records (h : ∀ row ∈ rows, row.Fits proper garbled) :
    ∀ row ∈ (records rows).map Row.record, row.Fits proper garbled := by
  intro row hrow
  obtain ⟨a, ha, rfl⟩ := List.mem_map.mp hrow
  exact h _ (mem_records ha)

end

/-! ### Versions -/

/-- A version without an epoch of zero. -/
def withoutZeroEpoch (evr : String) : String :=
  if ['0', ':'] <+: evr.toList then String.ofList (evr.toList.drop 2) else evr

theorem ofList_dropZeroEpoch (evr : String) :
    String.ofList (dropZeroEpoch evr.toList) = withoutZeroEpoch evr := by
  rw [withoutZeroEpoch]
  split
  · rename_i hzero
    obtain ⟨rest, hrest⟩ := hzero
    rw [← hrest]
    rfl
  · rename_i hnone
    rw [dropZeroEpoch]
    · exact String.ofList_toList
    · rintro rest hrest
      exact hnone ⟨rest, hrest.symm⟩

/-! ### Upgrades -/

/-- How it is printed that there is no location. -/
inductive Absence where
  /-- Nothing is printed. -/
  | blank
  /-- It is said that there is none. -/
  | noted

/-- What is printed. -/
def Absence.text : Absence → String
  | .blank => ""
  | .noted => "(none)"

/-- An upgrade, as dnf prints it. -/
structure Offer where
  /-- Name. -/
  name : String
  /-- Architecture. -/
  arch : String
  /-- Version, with its epoch. -/
  evr : String
  /-- The repository. -/
  repo : String
  /-- Where the artifact is. -/
  location : Option String
  /-- What is printed if that is not known. -/
  absence : Absence
  /-- An algorithm and a digest. -/
  checksum : Option (String × String)

namespace Offer

/-- The text of a checksum. -/
def checksumText : Option (String × String) → String
  | some (algorithm, digest) => algorithm ++ ":" ++ digest
  | none => ""

/-- The fields. -/
def fields (o : Offer) : List String :=
  [o.name, o.arch, o.evr, o.repo, o.location.getD o.absence.text, checksumText o.checksum]

/-- The line. -/
def line (o : Offer) : List Char := row o.fields

/-- An upgrade that can be printed: it has a name, and what is printed as its location does not say
that there is none. -/
structure Proper (o : Offer) : Prop where
  /-- There is a name. -/
  named : o.name ≠ ""
  /-- Fields can be told from what is around them. -/
  fields : ∀ f ∈ o.fields, IsField f.toList
  /-- A location is one. -/
  located : ∀ l ∈ o.location, l ≠ "" ∧ l ≠ "(none)"

theorem proper_iff {o : Offer} : o.Proper ↔ o.name ≠ "" ∧ (∀ f ∈ o.fields, IsField f.toList) ∧
    ∀ l ∈ o.location, l ≠ "" ∧ l ≠ "(none)" :=
  ⟨fun h => ⟨h.named, h.fields, h.located⟩, fun ⟨hn, hf, hl⟩ => ⟨hn, hf, hl⟩⟩

instance : DecidablePred Proper := fun _ => decidable_of_iff _ proper_iff.symm

/-- A digest in hexadecimal digits, of an algorithm that is known by its name in any case. -/
structure Stands (algorithm digest : String) (k : Checksum) : Prop where
  /-- The algorithm. -/
  algorithm : lowerAscii algorithm = Checksum.algorithmName k.algorithm
  /-- There are digits. -/
  some : digest ≠ ""
  /-- They are hexadecimal. -/
  hexadecimal : ∀ c ∈ digest.toList, isHexDigit c = true
  /-- They are put in lower case. -/
  digest : k.digest = lowerAscii digest

/-- A candidate is what is read of an upgrade. -/
structure ReadAs (o : Offer) (c : Candidate) : Prop where
  /-- The name is as printed. -/
  name : c.name = o.name
  /-- The architecture is as printed. -/
  arch : c.arch = o.arch
  /-- The version has no epoch of zero. -/
  newVersion : c.newVersion = withoutZeroEpoch o.evr
  /-- The repository is as printed. -/
  repo : c.repo = o.repo
  /-- The location is as printed, if there is one. -/
  location : c.location = o.location
  /-- The checksum is there if it is one. -/
  checksum : ∀ k, c.checksum = some k ↔
    ∃ algorithm digest, o.checksum = some (algorithm, digest) ∧ Stands algorithm digest k

/-- Advisories and installed versions are no part of an upgrade. -/
theorem ReadAs.complete {o : Offer} {c : Candidate} (h : o.ReadAs c) (installed : List Installed)
    (advisories : List (String × Advisory)) :
    o.ReadAs (attachAdvisory advisories (Manager.withInstalled installed c)) :=
  ⟨h.name, h.arch, h.newVersion, h.repo, h.location, h.checksum⟩

end Offer

theorem oldVersion_complete (installed : List Installed) (advisories : List (String × Advisory))
    (c : Candidate) : (attachAdvisory advisories (Manager.withInstalled installed c)).oldVersion =
      installedVersion installed c.name c.arch :=
  rfl

/-- A line lists no upgrade. -/
def ListsNoUpgrade (line : List Char) : Prop :=
  (fields line).length < 4 ∨ (fields line)[0]? = some []

instance : DecidablePred ListsNoUpgrade := fun _ => inferInstanceAs (Decidable (_ ∨ _))

theorem upgradeOfLine_eq_none_iff {line : List Char} :
    upgradeOfLine line = none ↔ ListsNoUpgrade line := by
  rw [upgradeOfLine, ListsNoUpgrade]
  split
  · rename_i name arch evr repo more heq
    have hlong : ¬(name :: arch :: evr :: repo :: more).length < 4 := by simp
    rw [heq, or_iff_right hlong]
    simp [List.isEmpty_iff]
  · rename_i hshort
    have hlength : (fields line).length < 4 := by
      rcases hfields : fields line with _ | ⟨name, _ | ⟨arch, _ | ⟨evr, _ | ⟨repo, more⟩⟩⟩⟩
      case cons.cons.cons.cons => exact (hshort name arch evr repo more hfields).elim
      all_goals simp
    simp [hlength]

theorem parseAlgorithm_eq_ok_iff {s : String} {v : Digest.Variant} :
    Checksum.parseAlgorithm s = .ok v ↔ lowerAscii s = Checksum.algorithmName v := by
  rw [Checksum.parseAlgorithm]
  cases v <;> by_cases h : lowerAscii s = "sha256" <;> by_cases h' : lowerAscii s = "sha512" <;>
    simp_all [Checksum.algorithmName]

/-- A name in which there is a colon is that of no algorithm. -/
theorem lowerAscii_ne_algorithmName {s : String} (h : ':' ∈ s.toList) (v : Digest.Variant) :
    lowerAscii s ≠ Checksum.algorithmName v := by
  intro heq
  have hmem : ':' ∈ (Checksum.algorithmName v).toList := by
    rw [← heq, lowerAscii, String.toList_ofList]
    exact List.mem_map_of_mem (f := Char.toLower) h
  cases v <;> exact absurd hmem (by decide)

/-- **Which checksums are read.** -/
theorem checksumOfField_eq_some_iff {algorithm digest : String} {k : Checksum} :
    checksumOfField (Offer.checksumText (some (algorithm, digest))).toList = some k ↔
      Offer.Stands algorithm digest k := by
  have htext : (Offer.checksumText (some (algorithm, digest))).toList =
      algorithm.toList ++ ':' :: digest.toList := by
    simp [Offer.checksumText]
  rw [htext]
  by_cases hcolon : ':' ∈ algorithm.toList
  · -- the digest would begin after the first colon, and there would be another one in it
    refine iff_of_false (fun hread => ?_) fun hstands =>
      lowerAscii_ne_algorithmName hcolon _ hstands.algorithm
    obtain ⟨before, after, hsplit, hbefore⟩ := List.eq_append_cons_of_mem hcolon
    rw [hsplit, List.append_assoc, List.cons_append, checksumOfField, cut_append hbefore] at hread
    have hbad : (after ++ ':' :: digest.toList).all isHexDigit = false := by
      rw [List.all_append, List.all_cons, show isHexDigit ':' = false by decide,
        Bool.false_and, Bool.and_false]
    cases hname : Checksum.parseAlgorithm (String.ofList before) with
    | error why => simp [hname] at hread
    | ok v => simp [hname, hbad] at hread
  · rw [checksumOfField, cut_append hcolon]
    dsimp only
    rw [String.ofList_toList]
    constructor
    · intro hread
      cases hname : Checksum.parseAlgorithm algorithm with
      | error why => simp [hname] at hread
      | ok v =>
        rw [hname] at hread
        dsimp only at hread
        split at hread
        · cases hread
        · rename_i hgood
          cases hread
          have hboth : digest.toList ≠ [] ∧ ∀ c ∈ digest.toList, isHexDigit c = true := by
            simpa [List.isEmpty_iff] using hgood
          exact ⟨parseAlgorithm_eq_ok_iff.mp hname, by simpa using hboth.1, hboth.2,
            by rw [String.ofList_toList]⟩
    · rintro ⟨halgorithm, hsome, hhex, hdigest⟩
      rw [parseAlgorithm_eq_ok_iff.mpr halgorithm]
      dsimp only
      rw [if_neg (by simpa [List.isEmpty_iff] using And.intro hsome hhex), String.ofList_toList,
        ← hdigest]

/-- What is read as the checksum of an upgrade. -/
theorem checksumOfField_checksumText {checksum : Option (String × String)} {k : Checksum} :
    checksumOfField (Offer.checksumText checksum).toList = some k ↔
      ∃ algorithm digest, checksum = some (algorithm, digest) ∧
        Offer.Stands algorithm digest k := by
  cases checksum with
  | none => simp [Offer.checksumText, checksumOfField, cut]
  | some both =>
    obtain ⟨algorithm, digest⟩ := both
    rw [checksumOfField_eq_some_iff]
    simp

/-- What is read as the location of an upgrade. -/
theorem Offer.Proper.location {o : Offer} (ho : o.Proper) :
    locationOfField (o.location.getD o.absence.text).toList = o.location := by
  cases hlocation : o.location with
  | none => cases o.absence <;> decide
  | some l =>
    obtain ⟨hsome, hnoted⟩ := ho.located l hlocation
    have hne : l.toList ≠ "(none)".toList := fun heq => hnoted (String.toList_injective heq)
    rw [Option.getD_some, locationOfField, if_neg, String.ofList_toList]
    simpa [List.isEmpty_iff] using And.intro hsome hne

/-- **What is read of the line of an upgrade.** -/
theorem Offer.Proper.read {o : Offer} (ho : o.Proper) :
    ∃ c, upgradeOfLine o.line = some c ∧ o.ReadAs c ∧ c.oldVersion = none ∧
      c.advisory = none := by
  have hfields : Dnf.fields o.line = o.fields.map String.toList :=
    fields_row (List.cons_ne_nil _ _) ho.fields
  have hname : o.name.toList.isEmpty = false := by simpa using ho.named
  refine ⟨⟨o.name, o.arch, none, withoutZeroEpoch o.evr, o.repo, none, o.location,
    checksumOfField (checksumText o.checksum).toList⟩, ?_,
    ⟨rfl, rfl, rfl, rfl, rfl, fun k => checksumOfField_checksumText⟩, rfl, rfl⟩
  rw [upgradeOfLine, hfields]
  simp [Offer.fields, hname, ofList_dropZeroEpoch, ho.location]

/-! ### Installed packages -/

namespace Installed

/-- The line of a package. -/
def line (p : Installed) : List Char := row [p.name, p.arch, p.evr]

/-- A package that can be printed: it has a name and a version. -/
structure Proper (p : Installed) : Prop where
  /-- There is a name. -/
  named : p.name ≠ ""
  /-- There is a version. -/
  versioned : p.evr ≠ ""
  /-- Fields can be told from what is around them. -/
  fields : ∀ f ∈ [p.name, p.arch, p.evr], IsField f.toList

theorem proper_iff {p : Installed} :
    p.Proper ↔ p.name ≠ "" ∧ p.evr ≠ "" ∧ ∀ f ∈ [p.name, p.arch, p.evr], IsField f.toList :=
  ⟨fun h => ⟨h.named, h.versioned, h.fields⟩, fun ⟨hn, hv, hf⟩ => ⟨hn, hv, hf⟩⟩

instance : DecidablePred Proper := fun _ => decidable_of_iff _ proper_iff.symm

/-- What is read of the line of a package. -/
theorem Proper.read {p : Installed} (hp : p.Proper) :
    installedOfLine p.line = some { p with evr := withoutZeroEpoch p.evr } := by
  have hfields : Dnf.fields p.line = [p.name, p.arch, p.evr].map String.toList :=
    fields_row (List.cons_ne_nil _ _) hp.fields
  have hname : p.name.toList.isEmpty = false := by simpa using hp.named
  have hevr : p.evr.toList.isEmpty = false := by simpa using hp.versioned
  rw [installedOfLine, hfields]
  simp [hname, hevr, ofList_dropZeroEpoch]

end Installed

/-- A line names no installed package. -/
def ListsNoPackage (line : List Char) : Prop :=
  (fields line).length < 3 ∨ (fields line)[0]? = some [] ∨ (fields line)[2]? = some []

instance : DecidablePred ListsNoPackage := fun _ => inferInstanceAs (Decidable (_ ∨ _))

theorem installedOfLine_eq_none_iff {line : List Char} :
    installedOfLine line = none ↔ ListsNoPackage line := by
  rw [installedOfLine, ListsNoPackage]
  split
  · rename_i name arch evr more heq
    have hlong : ¬(name :: arch :: evr :: more).length < 3 := by simp
    rw [heq, or_iff_right hlong]
    simp [List.isEmpty_iff, or_iff_not_imp_left]
  · rename_i hshort
    have hlength : (fields line).length < 3 := by
      rcases hfields : fields line with _ | ⟨name, _ | ⟨arch, _ | ⟨evr, more⟩⟩⟩
      case cons.cons.cons => exact (hshort name arch evr more hfields).elim
      all_goals simp
    simp [hlength]

/-- The version of a package that is listed last. -/
def lastVersion (ps : List Installed) (name arch : String) : Option String :=
  ((ps.filter fun p => p.name = name ∧ p.arch = arch).getLast?).map fun p => withoutZeroEpoch p.evr

theorem installedVersion_map (ps : List Installed) (name arch : String) :
    installedVersion (ps.map fun p => { p with evr := withoutZeroEpoch p.evr }) name arch =
      lastVersion ps name arch := by
  rw [installedVersion, lastVersion, ← List.map_reverse, List.find?_map, Option.map_map,
    List.getLast?_eq_head?_reverse, ← List.filter_reverse, List.head?_filter]
  congr 2
  funext p
  rw [Bool.decide_and]
  rfl

/-! ### Whole listings -/

variable {offers : List (Row Offer)} {packages : List (Row Installed)}

/-- What is read of the upgrades of a listing. -/
theorem parseUpgrades_listing (h : ∀ row ∈ offers, row.Fits Offer.Proper ListsNoUpgrade) :
    parseUpgrades (listing Offer.line offers) =
      (records offers).filterMap fun o => upgradeOfLine o.line := by
  rw [parseUpgrades, filterMap_lines_listing]
  · exact filterMap_records (fun cs hcs => upgradeOfLine_eq_none_iff.mpr hcs) h
  · intro cs
    simp only [upgradeOfLine, fields_dropCarriageReturn]
  · intro row hrow
    cases row with
    | record o => exact (not_mem_row (h _ hrow).fields).1
    | noise cs => exact (h _ hrow).1

/-- What is read of the packages of a listing. -/
theorem parseInstalled_listing
    (h : ∀ row ∈ packages, row.Fits Installed.Proper ListsNoPackage) :
    parseInstalled (listing Installed.line packages) =
      (records packages).map fun p => { p with evr := withoutZeroEpoch p.evr } := by
  rw [parseInstalled, filterMap_lines_listing]
  · rw [filterMap_records (fun cs hcs => installedOfLine_eq_none_iff.mpr hcs) h]
    rw [← List.filterMap_eq_map]
    exact List.filterMap_congr fun p hp => (h _ (mem_records hp)).read
  · intro cs
    simp only [installedOfLine, fields_dropCarriageReturn]
  · intro row hrow
    cases row with
    | record p => exact (not_mem_row (h _ hrow).fields).1
    | noise cs => exact (h _ hrow).1

/-- What is read of each is read in order. -/
theorem forall₂_filterMap {R : α → β → Prop} {f : α → Option β} {as : List α}
    (h : ∀ a ∈ as, ∃ b, f a = some b ∧ R a b) : List.Forall₂ R as (as.filterMap f) := by
  induction as with
  | nil => exact List.Forall₂.nil
  | cons a as ih =>
    obtain ⟨b, hb, hR⟩ := h a List.mem_cons_self
    rw [List.filterMap_cons_some hb]
    exact List.Forall₂.cons hR (ih fun a' ha' => h a' (List.mem_cons_of_mem a ha'))

/-- **Listings are read back.** Of the upgrades that are listed each is read, in order, and nothing
else; of a package that is installed the version that is listed last. Other lines make no
difference. A query comes to these upgrades with the installed versions of their packages. -/
theorem listings_read (hoffers : ∀ row ∈ offers, row.Fits Offer.Proper ListsNoUpgrade)
    (hpackages : ∀ row ∈ packages, row.Fits Installed.Proper ListsNoPackage) :
    List.Forall₂ (fun o c => o.ReadAs c ∧ c.oldVersion = none ∧ c.advisory = none)
        (records offers) (parseUpgrades (listing Offer.line offers)) ∧
      parseUpgrades (listing Offer.line offers) =
        parseUpgrades (listing Offer.line ((records offers).map .record)) ∧
      (∀ name arch, installedVersion (parseInstalled (listing Installed.line packages)) name arch =
        lastVersion (records packages) name arch) ∧
      parseInstalled (listing Installed.line packages) =
        parseInstalled (listing Installed.line ((records packages).map .record)) ∧
      ∀ (d : Manager) (around : Surroundings) (repositories : List String) (m : Machine),
        repositories ≠ [] →
        (d.installedReply around m).1 = .ok (listing Installed.line packages) →
        (d.upgradesReply around repositories m).1 = .ok (listing Offer.line offers) →
        ∃ cs, (d.upgrades around repositories m).1 = .ok cs ∧
          List.Forall₂ (fun o c => o.ReadAs c ∧
            c.oldVersion = lastVersion (records packages) o.name o.arch) (records offers) cs := by
  have hupgrades : List.Forall₂ (fun o c => o.ReadAs c ∧ c.oldVersion = none ∧ c.advisory = none)
      (records offers) (parseUpgrades (listing Offer.line offers)) := by
    rw [parseUpgrades_listing hoffers]
    exact forall₂_filterMap fun o ho => (hoffers _ (mem_records ho)).read
  have hversions : ∀ name arch,
      installedVersion (parseInstalled (listing Installed.line packages)) name arch =
        lastVersion (records packages) name arch := by
    intro name arch
    rw [parseInstalled_listing hpackages, installedVersion_map]
  refine ⟨hupgrades, ?_, hversions, ?_, ?_⟩
  · rw [parseUpgrades_listing hoffers, parseUpgrades_listing (fits_records hoffers),
      records_map_record]
  · rw [parseInstalled_listing hpackages, parseInstalled_listing (fits_records hpackages),
      records_map_record]
  · intro d around repositories m hsome hinstalled hlisted
    refine ⟨_, (Manager.upgrades_eq_ok_iff hsome).mpr ⟨_, _, hinstalled, hlisted, rfl⟩, ?_⟩
    generalize known (d.advisoriesReply around repositories m).1 = advisories
    rw [attachAdvisories, List.map_map, List.forall₂_map_right_iff]
    refine hupgrades.imp ?_
    rintro o c ⟨hread, -, -⟩
    refine ⟨hread.complete _ advisories, ?_⟩
    rw [← hversions, ← hread.name, ← hread.arch]
    exact oldVersion_complete _ advisories c

/-- Upgrades with other lines among them. -/
def noisyOffers : List (Row Offer) :=
  [.noise "Last metadata expiration check: 0:01:02 ago".toList,
    .record ⟨"bash", "x86_64", "0:5.2-4", "updates", some "/b.rpm", .blank, some ("SHA256", "AB")⟩,
    .noise "\tx86_64\t5.2-5\tupdates\r".toList,
    .record ⟨"kernel", "x86_64", "1:6.1-2", "updates", none, .noted, some ("md5", "ab")⟩]

/-- Installed packages with another line among them. -/
def noisyPackages : List (Row Installed) :=
  [.record ⟨"bash", "x86_64", "0:5.2-2"⟩, .noise "bash\tx86_64\t".toList,
    .record ⟨"bash", "x86_64", "0:5.2-3"⟩]

/-- The other lines are passed over, and of the two versions of one package the last one counts. -/
theorem listings_read_noisy :
    (∀ row ∈ noisyOffers, row.Fits Offer.Proper ListsNoUpgrade) ∧
      (∀ row ∈ noisyPackages, row.Fits Installed.Proper ListsNoPackage) ∧
      ∃ bash kernel,
        (({ metadataLimit := ⟨1⟩, applyLimit := ⟨1⟩ } : Manager).upgrades
            (listers (listing Installed.line noisyPackages) (listing Offer.line noisyOffers))
            ["updates"] (Machine.start Files.empty)).1 = .ok [bash, kernel] ∧
          bash.newVersion = "5.2-4" ∧ bash.oldVersion = some "5.2-3" ∧
          bash.checksum = some ⟨.sha256, "ab"⟩ ∧
          kernel.newVersion = "1:6.1-2" ∧ kernel.oldVersion = none ∧ kernel.checksum = none := by
  have hoffers : ∀ row ∈ noisyOffers, row.Fits Offer.Proper ListsNoUpgrade := by decide +kernel
  have hpackages : ∀ row ∈ noisyPackages, row.Fits Installed.Proper ListsNoPackage := by
    decide +kernel
  obtain ⟨-, -, -, -, hquery⟩ := listings_read hoffers hpackages
  obtain ⟨hinstalled, hlisted, -⟩ := Manager.replies_listers (Machine.unhurried_start Files.empty)
    (listing Installed.line noisyPackages) (listing Offer.line noisyOffers) ⟨1⟩
  obtain ⟨cs, hcs, hread⟩ := hquery _ _ ["updates"] _ (by simp) hinstalled hlisted
  obtain ⟨bash, rest, ⟨hbash, hold⟩, hnext, rfl⟩ := List.forall₂_cons_left_iff.mp hread
  obtain ⟨kernel, rest, ⟨hkernel, hnew⟩, hend, rfl⟩ := List.forall₂_cons_left_iff.mp hnext
  cases hend
  refine ⟨hoffers, hpackages, bash, kernel, hcs, hbash.newVersion.trans (by decide +kernel),
    hold.trans (by decide +kernel), (hbash.checksum _).mpr ⟨"SHA256", "AB", rfl, ?_⟩,
    hkernel.newVersion.trans (by decide +kernel), hnew.trans (by decide +kernel), ?_⟩
  · exact ⟨by decide +kernel, by decide, List.all_eq_true.mp (by decide +kernel),
      by decide +kernel⟩
  · rw [Option.eq_none_iff_forall_ne_some]
    intro k hk
    obtain ⟨algorithm, digest, heq, hstands⟩ := (hkernel.checksum k).mp hk
    cases heq
    have hname : ∀ v, lowerAscii "md5" ≠ Checksum.algorithmName v := by
      rintro (_ | _) <;> decide +kernel
    exact hname _ hstands.algorithm

end Dnf

end Upkeep
