import Upkeep.Lock
import Upkeep.Proofs.Json.Record
import Upkeep.Proofs.Marker
import Upkeep.RunResult

/-!
# Stored values read back

Every value that is stored or printed as a record is read back from it: the result of a run with
all that it lists, a candidate, who holds the lock, and the marker. For each of them everything is
written, and what is written has what the reader of the record looks for.

## Main results

* `RunResult.ofJson_toJson`, `Candidate.ofJson_toJson`, `Holder.ofJson_toJson`.
* `Lock.holder?_of_record`: the holder that a lock file names.
* `read_back`: all of them from their texts.
-/

namespace Upkeep

open Json (exists_record given lookup_given record_ne_null asText_text asList_array)
open Json.Record (required_of_find? orElse_of_find? defaulted_of_find? optional_of_find?)

/-! ### Choices -/

theorem AdvisoryKind.ofJson_name (k : AdvisoryKind) : ofJson (.text k.name) = some k :=
  Json.asChoice_text name all (by decide) (by cases k <;> decide)

theorem Severity.ofJson_name (s : Severity) : ofJson (.text s.name) = some s :=
  Json.asChoice_text name all (by decide) (by cases s <;> decide)

theorem FailureKind.ofJson_name (k : FailureKind) : ofJson (.text k.name) = some k :=
  Json.asChoice_text name all (by decide) (by cases k <;> decide)

theorem Stage.ofJson_name (s : Stage) : ofJson (.text s.name) = some s :=
  Json.asChoice_text name all (by decide) (by cases s <;> decide)

theorem Mode.ofJson_name (m : Mode) : ofJson (.text m.name) = some m :=
  Json.asChoice_text name all (by decide) (by cases m <;> decide)

theorem Outcome.ofJson_name (o : Outcome) : ofJson (.text o.name) = some o :=
  Json.asChoice_text name all (by decide) (by cases o <;> decide)

theorem Checksum.ofJson_algorithmName (v : Digest.Variant) :
    Json.asChoice [("sha256", Digest.Variant.sha256), ("sha512", Digest.Variant.sha512)]
      (.text (algorithmName v)) = some v :=
  Json.asChoice_text algorithmName [.sha256, .sha512] (by decide) (by cases v <;> decide)

/-! ### Candidates -/

namespace Advisory

theorem toJson_eq (a : Advisory) : a.toJson = Json.record
    ([("id", .text a.id), ("kind", .text a.kind.name)] ++
      given "severity" (fun s => .text s.name) a.severity) := by
  rw [toJson]
  cases a.severity <;> rfl

theorem toJson_ne_null (a : Advisory) : a.toJson ≠ .null := record_ne_null _

theorem exact_toJson (a : Advisory) : a.toJson.Exact := by
  rw [toJson_eq]
  refine .record ?_
  simp only [List.forall_mem_append, List.forall_mem_cons]
  exact ⟨⟨.text _, .text _, by simp⟩, .given (fun s => .text (Severity.name s)) _ _⟩

theorem ofJson_toJson (a : Advisory) : ofJson a.toJson = some a := by
  obtain ⟨r, hr, hfind⟩ := exists_record ["id", "kind", "severity"] a.toJson_eq (by decide)
    (by cases a.severity <;> simp [given])
  simp only [List.lookup_append, List.lookup_cons, lookup_given] at hfind
  have hid : r.required "id" Json.asText = some a.id := required_of_find? (hfind "id") rfl
  have hkind : r.required "kind" AdvisoryKind.ofJson = some a.kind :=
    required_of_find? (hfind "kind") a.kind.ofJson_name
  have hseverity : r.defaulted "severity" Severity.ofJson = some a.severity :=
    defaulted_of_find? (hfind "severity") (by simp) fun s _ => s.ofJson_name
  rw [ofJson, hr]
  simp [hid, hkind, hseverity]

end Advisory

namespace Checksum

theorem toJson_ne_null (c : Checksum) : c.toJson ≠ .null := record_ne_null _

theorem exact_toJson (c : Checksum) : c.toJson.Exact := by
  refine .record ?_
  simp only [List.forall_mem_cons]
  exact ⟨.text _, .text _, by simp⟩

theorem ofJson_toJson (c : Checksum) : ofJson c.toJson = some c := by
  obtain ⟨r, hr, hfind⟩ := exists_record ["algorithm", "digest"] (toJson.eq_1 c) (by decide)
    (by simp)
  have halgorithm := required_of_find? (hfind "algorithm") (ofJson_algorithmName c.algorithm)
  have hdigest : r.required "digest" Json.asText = some c.digest :=
    required_of_find? (hfind "digest") rfl
  rw [ofJson, hr]
  simp [halgorithm, hdigest]

end Checksum

namespace PackageId

theorem toJson_ne_null (p : PackageId) : p.toJson ≠ .null := record_ne_null _

theorem exact_toJson (p : PackageId) : p.toJson.Exact := by
  refine .record ?_
  simp only [List.forall_mem_cons]
  exact ⟨.text _, .text _, by simp⟩

theorem ofJson_toJson (p : PackageId) : ofJson p.toJson = some p := by
  obtain ⟨r, hr, hfind⟩ := exists_record ["name", "arch"] (toJson.eq_1 p) (by decide) (by simp)
  have hname : r.required "name" Json.asText = some p.name :=
    required_of_find? (hfind "name") rfl
  have harch : r.required "arch" Json.asText = some p.arch :=
    required_of_find? (hfind "arch") rfl
  rw [ofJson, hr]
  simp [hname, harch]

end PackageId

namespace Candidate

theorem toJson_eq (c : Candidate) : c.toJson = Json.record
    ([("name", .text c.name), ("arch", .text c.arch),
        ("old_version", Json.optional .text c.oldVersion), ("new_version", .text c.newVersion),
        ("repo", .text c.repo)] ++
      given "advisory" Advisory.toJson c.advisory ++ given "location" .text c.location ++
      given "checksum" Checksum.toJson c.checksum) := by
  rw [toJson]
  cases c.advisory <;> cases c.location <;> cases c.checksum <;> rfl

theorem exact_toJson (c : Candidate) : c.toJson.Exact := by
  rw [toJson_eq]
  refine .record ?_
  simp only [List.forall_mem_append, List.forall_mem_cons]
  exact ⟨⟨⟨⟨.text _, .text _, .optional .text _, .text _, .text _, by simp⟩,
    .given Advisory.exact_toJson _ _⟩, .given .text _ _⟩, .given Checksum.exact_toJson _ _⟩

/-- **A candidate is read back.** -/
theorem ofJson_toJson (c : Candidate) : ofJson c.toJson = some c := by
  obtain ⟨r, hr, hfind⟩ := exists_record ["name", "arch", "old_version", "new_version", "repo",
    "advisory", "location", "checksum"] c.toJson_eq (by decide)
    (by cases c.advisory <;> cases c.location <;> cases c.checksum <;> simp [given])
  simp only [List.lookup_append, List.lookup_cons, lookup_given] at hfind
  have hname : r.required "name" Json.asText = some c.name :=
    required_of_find? (hfind "name") rfl
  have harch : r.required "arch" Json.asText = some c.arch :=
    required_of_find? (hfind "arch") rfl
  have hold : r.optional "old_version" Json.asText = some c.oldVersion :=
    optional_of_find? (hfind "old_version") (by simp) fun _ _ => rfl
  have hnew : r.required "new_version" Json.asText = some c.newVersion :=
    required_of_find? (hfind "new_version") rfl
  have hrepo : r.required "repo" Json.asText = some c.repo :=
    required_of_find? (hfind "repo") rfl
  have hadvisory : r.defaulted "advisory" Advisory.ofJson = some c.advisory :=
    defaulted_of_find? ((hfind "advisory").trans (by simp)) Advisory.toJson_ne_null
      fun a _ => a.ofJson_toJson
  have hlocation : r.defaulted "location" Json.asText = some c.location :=
    defaulted_of_find? ((hfind "location").trans (by simp)) (by simp) fun s _ => asText_text s
  have hchecksum : r.defaulted "checksum" Checksum.ofJson = some c.checksum :=
    defaulted_of_find? ((hfind "checksum").trans (by simp)) Checksum.toJson_ne_null
      fun k _ => k.ofJson_toJson
  rw [ofJson, hr]
  simp [hname, harch, hold, hnew, hrepo, hadvisory, hlocation, hchecksum]

end Candidate

/-! ### Results -/

namespace FailureRecord

theorem toJson_eq (f : FailureRecord) : f.toJson = Json.record
    ([("stage", .text f.stage.name)] ++ given "package" PackageId.toJson f.package ++
      [("kind", .text f.kind.name), ("reason", .text f.reason)]) := by
  rw [toJson]
  cases f.package <;> rfl

theorem exact_toJson (f : FailureRecord) : f.toJson.Exact := by
  rw [toJson_eq]
  refine .record ?_
  simp only [List.forall_mem_append, List.forall_mem_cons]
  exact ⟨⟨⟨.text _, by simp⟩, .given PackageId.exact_toJson _ _⟩, .text _, .text _, by simp⟩

theorem ofJson_toJson (f : FailureRecord) : ofJson f.toJson = some f := by
  obtain ⟨r, hr, hfind⟩ := exists_record ["stage", "package", "kind", "reason"] f.toJson_eq
    (by decide) (by cases f.package <;> simp [given])
  simp only [List.lookup_append, List.lookup_cons, lookup_given] at hfind
  have hstage : r.required "stage" Stage.ofJson = some f.stage :=
    required_of_find? ((hfind "stage").trans (by simp)) f.stage.ofJson_name
  have hpackage : r.defaulted "package" PackageId.ofJson = some f.package :=
    defaulted_of_find? ((hfind "package").trans (by simp)) PackageId.toJson_ne_null
      fun p _ => p.ofJson_toJson
  have hkind : r.required "kind" FailureKind.ofJson = some f.kind :=
    required_of_find? ((hfind "kind").trans (by simp)) f.kind.ofJson_name
  have hreason : r.required "reason" Json.asText = some f.reason :=
    required_of_find? ((hfind "reason").trans (by simp)) (asText_text f.reason)
  rw [ofJson, hr]
  simp [hstage, hpackage, hkind, hreason]

end FailureRecord

namespace RebootAdvice

theorem exact_toJson (a : RebootAdvice) : a.toJson.Exact := by
  refine .record ?_
  simp only [List.forall_mem_cons]
  exact ⟨.bool _, .text _, .bool _, by simp⟩

theorem ofJson_toJson (a : RebootAdvice) : ofJson a.toJson = some a := by
  obtain ⟨r, hr, hfind⟩ := exists_record ["recommended", "reason", "triggered"] (toJson.eq_1 a)
    (by decide) (by simp)
  have hrecommended : r.required "recommended" Json.asBool = some a.recommended :=
    required_of_find? (hfind "recommended") rfl
  have hreason : r.required "reason" Json.asText = some a.reason :=
    required_of_find? (hfind "reason") rfl
  have htriggered : r.orElse "triggered" false Json.asBool = some a.triggered :=
    orElse_of_find? (hfind "triggered") rfl
  rw [ofJson, hr]
  simp [hrecommended, hreason, htriggered]

end RebootAdvice

namespace RunResult

theorem toJson_eq (r : RunResult) : r.toJson = Json.record
    ([("started_at", .text r.startedAt.storedText)] ++
      given "finished_at" (fun t => .text t.storedText) r.finishedAt ++
      [("system_name", .text r.systemName), ("mode", .text r.mode.name),
        ("outcome", .text r.outcome.name)] ++
      given "abort_kind" (fun k => .text k.name) r.abortKind ++
      [("considered", .array (r.considered.map Candidate.toJson)),
        ("downloaded", .array (r.downloaded.map Candidate.toJson)),
        ("applied", .array (r.applied.map Candidate.toJson)),
        ("failures", .array (r.failures.map FailureRecord.toJson)),
        ("warnings", .array (r.warnings.map FailureRecord.toJson)),
        ("reboot", r.reboot.toJson)]) := by
  rw [toJson]
  cases r.finishedAt <;> cases r.abortKind <;> rfl

theorem exact_toJson (r : RunResult) : r.toJson.Exact := by
  rw [toJson_eq]
  refine .record ?_
  simp only [List.forall_mem_append, List.forall_mem_cons]
  exact ⟨⟨⟨⟨⟨.text _, by simp⟩, .given (fun t => .text (Instant.storedText t)) _ _⟩,
    .text _, .text _, .text _, by simp⟩, .given (fun k => .text (FailureKind.name k)) _ _⟩,
    .list Candidate.exact_toJson, .list Candidate.exact_toJson, .list Candidate.exact_toJson,
    .list FailureRecord.exact_toJson, .list FailureRecord.exact_toJson,
    RebootAdvice.exact_toJson _, by simp⟩

theorem instantOfJson_storedText {t : Instant} (valid : t.Valid) :
    instantOfJson (.text t.storedText) = some t := by
  rw [instantOfJson, asText_text, Option.bind_some, Instant.parse_storedText valid]

/-- **The result of a run is read back.** -/
theorem ofJson_toJson {r : RunResult} (started : r.startedAt.Valid)
    (finished : ∀ t ∈ r.finishedAt, t.Valid) : ofJson r.toJson = some r := by
  obtain ⟨fields, hfields, hfind⟩ := exists_record ["started_at", "finished_at", "system_name",
    "mode", "outcome", "abort_kind", "considered", "downloaded", "applied", "failures", "warnings",
    "reboot"] r.toJson_eq (by decide)
    (by cases r.finishedAt <;> cases r.abortKind <;> simp [given])
  simp only [List.lookup_append, List.lookup_cons, lookup_given] at hfind
  have hstarted : fields.required "started_at" instantOfJson = some r.startedAt :=
    required_of_find? ((hfind "started_at").trans (by simp)) (instantOfJson_storedText started)
  have hfinished : fields.defaulted "finished_at" instantOfJson = some r.finishedAt :=
    defaulted_of_find? ((hfind "finished_at").trans (by simp)) (by simp)
      fun t ht => instantOfJson_storedText (finished t ht)
  have hname : fields.required "system_name" Json.asText = some r.systemName :=
    required_of_find? ((hfind "system_name").trans (by simp)) (asText_text r.systemName)
  have hmode : fields.required "mode" Mode.ofJson = some r.mode :=
    required_of_find? ((hfind "mode").trans (by simp)) r.mode.ofJson_name
  have houtcome : fields.required "outcome" Outcome.ofJson = some r.outcome :=
    required_of_find? ((hfind "outcome").trans (by simp)) r.outcome.ofJson_name
  have habort : fields.defaulted "abort_kind" FailureKind.ofJson = some r.abortKind :=
    defaulted_of_find? ((hfind "abort_kind").trans (by simp)) (by simp) fun k _ => k.ofJson_name
  have hcandidates : ∀ l : List Candidate,
      Json.asList Candidate.ofJson (.array (l.map Candidate.toJson)) = some l :=
    fun l => asList_array fun c _ => c.ofJson_toJson
  have hrecords : ∀ l : List FailureRecord,
      Json.asList FailureRecord.ofJson (.array (l.map FailureRecord.toJson)) = some l :=
    fun l => asList_array fun f _ => f.ofJson_toJson
  have hconsidered := required_of_find? ((hfind "considered").trans (by simp))
    (hcandidates r.considered)
  have hdownloaded := required_of_find? ((hfind "downloaded").trans (by simp))
    (hcandidates r.downloaded)
  have happlied := required_of_find? ((hfind "applied").trans (by simp)) (hcandidates r.applied)
  have hfailures := required_of_find? ((hfind "failures").trans (by simp)) (hrecords r.failures)
  have hwarnings := required_of_find? ((hfind "warnings").trans (by simp)) (hrecords r.warnings)
  have hreboot := required_of_find? ((hfind "reboot").trans (by simp)) r.reboot.ofJson_toJson
  rw [ofJson, hfields]
  simp [hstarted, hfinished, hname, hmode, houtcome, habort, hconsidered, hdownloaded, happlied,
    hfailures, hwarnings, hreboot]

/-- What is printed of a result ends its line. -/
theorem parse_printed {r : RunResult} (started : r.startedAt.Valid)
    (finished : ∀ t ∈ r.finishedAt, t.Valid) :
    (Json.parse (r.toJson.pretty ++ "
")).bind ofJson = some r := by
  rw [Json.parse_pretty_line r.exact_toJson, Option.bind_some, ofJson_toJson started finished]

end RunResult

/-! ### The lock's holder -/

namespace Holder

theorem exact_toJson (h : Holder) : h.toJson.Exact := by
  refine .record ?_
  simp only [List.forall_mem_cons]
  exact ⟨.number _ _, .text _, .text _, by simp⟩

/-- Process numbers have 32 bits. -/
theorem ofJson_toJson {h : Holder} (pid : h.pid < 4294967296) (acquired : h.acquiredAt.Valid) :
    ofJson h.toJson = some h := by
  obtain ⟨r, hr, hfind⟩ := exists_record ["pid", "host", "acquired_at"] (toJson.eq_1 h)
    (by decide) (by simp)
  have hpid : r.required "pid" (Json.asNat 4294967296) = some h.pid :=
    required_of_find? (hfind "pid") (if_pos pid)
  have hhost : r.required "host" Json.asText = some h.host :=
    required_of_find? (hfind "host") rfl
  have hacquired : r.required "acquired_at" (fun v => (Json.asText v).bind Instant.parse) =
      some h.acquiredAt := by
    refine required_of_find? (hfind "acquired_at") ?_
    rw [asText_text, Option.bind_some, Instant.parse_storedText acquired]
  rw [ofJson, hr]
  simp [hpid, hhost, hacquired]

theorem parse_compact {h : Holder} (pid : h.pid < 4294967296) (acquired : h.acquiredAt.Valid) :
    parse h.toJson.compact = some h := by
  rw [parse, Json.parse_compact h.exact_toJson, Option.bind_some, ofJson_toJson pid acquired]

end Holder

/-- The holder that a lock file names is the one that was recorded in it. -/
theorem Lock.holder?_of_record {fs : Files} {path : String} {h : Holder}
    (pid : h.pid < 4294967296) (acquired : h.acquiredAt.Valid)
    (hread : fs.read path = .ok (record h)) : holder? fs path = some h := by
  rw [holder?, Files.readText, hread]
  simp only [record, Text.decode?_toUTF8, Holder.parse_compact pid acquired]

/-! ### All of them -/

/-- **What is stored or printed is read back as it was**: the result that is printed, the compact
text of a candidate and of a lock's holder, and the marker, compact or as its file holds it. -/
theorem read_back (r : RunResult) (c : Candidate) (h : Holder) (t : Instant)
    (started : r.startedAt.Valid) (finished : ∀ t ∈ r.finishedAt, t.Valid)
    (pid : h.pid < 4294967296) (acquired : h.acquiredAt.Valid) (settled : t.Valid) :
    (Json.parse (r.toJson.pretty ++ "\n")).bind RunResult.ofJson = some r ∧
    (Json.parse c.toJson.compact).bind Candidate.ofJson = some c ∧
    Holder.parse h.toJson.compact = some h ∧
    (Json.parse (Marker.toJson t).compact).bind Marker.ofJson = some t ∧
    (Json.parse (Marker.toJson t).pretty).bind Marker.ofJson = some t := by
  have hmarker := Marker.exact_toJson t
  refine ⟨RunResult.parse_printed started finished, ?_, Holder.parse_compact pid acquired, ?_, ?_⟩
  · rw [Json.parse_compact c.exact_toJson, Option.bind_some, c.ofJson_toJson]
  · rw [Json.parse_compact hmarker, Option.bind_some, Marker.ofJson_toJson settled]
  · rw [Json.parse_pretty hmarker, Option.bind_some, Marker.ofJson_toJson settled]

/-- A result with something in every field: texts with a quote, a control character and letters
beyond ASCII, and instants inside and outside a leap second. -/
def RunResult.crowded : RunResult where
  startedAt := ⟨1483228799, 1500000000⟩
  finishedAt := some ⟨1483228801, 1⟩
  systemName := "hôte \"a\"\t\u0001"
  mode := .apply
  outcome := .aborted
  abortKind := some .transactionStateUnknown
  considered := [⟨"bash", "x86_64", none, "1:5-1", "os", some ⟨"A-1", .security, some .low⟩, none,
    some ⟨.sha512, "ab"⟩⟩]
  downloaded := [⟨"bash", "x86_64", some "4-1", "1:5-1", "os", some ⟨"A-1", .bugfix, none⟩,
    some "a\\b", none⟩]
  applied := []
  failures := [⟨.apply, none, .transactionStateUnknown, "\u2028"⟩]
  warnings := [⟨.download, some ⟨"bash", "x86_64"⟩, .downloadFailure, ""⟩]
  reboot := ⟨true, "kernel", false⟩

theorem read_back_crowded :
    (Json.parse (RunResult.crowded.toJson.pretty ++ "\n")).bind RunResult.ofJson =
      some RunResult.crowded :=
  (read_back RunResult.crowded ⟨"bash", "x86_64", none, "5-1", "os", none, none, none⟩
    ⟨4294967295, "hôte", ⟨0, 1⟩⟩ ⟨-1, 999999999⟩ ⟨by decide, by decide, by decide⟩
    (by rintro _ ⟨⟩; exact ⟨by decide, by decide, by decide⟩) (by decide)
    ⟨by decide, by decide, by decide⟩ ⟨by decide, by decide, by decide⟩).1

end Upkeep
