import Upkeep.Marker
import Upkeep.Proofs.Json.Written
import Upkeep.Proofs.Timestamps

/-!
# The marker read back

The marker of an instant is the text of a JSON record in which the instant stands in its stored
form. All three are read back as they were written, so the marker is.

## Main results

* `Marker.read_content`.
-/

namespace Upkeep.Marker

variable {fs : Files} {path : String} {time : Instant}

theorem exact_toJson (time : Instant) : (toJson time).Exact := by
  refine .object ?_ ?_
  · simp
  · simp only [List.map_cons, List.map_nil, List.forall_mem_cons]
    exact ⟨.text _, .number _ _, by simp⟩

theorem ofJson_toJson (valid : time.Valid) : ofJson (toJson time) = some time := by
  simp [ofJson, toJson, Json.record, Json.asRecord, Json.collect, Json.Record.required,
    Json.Record.find?, Json.asText, Json.asNat, Json.nat, version, Instant.parse_storedText valid]

/-- **The marker is read as it was written.** -/
theorem read_content (valid : time.Valid) (hread : fs.read path = .ok (content time)) :
    read fs path = some time := by
  rw [read, Files.readText, hread]
  simp only [content, Text.decode?_toUTF8, Json.parse_pretty (exact_toJson time), Option.bind_some,
    ofJson_toJson valid]

end Upkeep.Marker
