import Upkeep.Json.Record
import Upkeep.Proofs.Json.Written

/-!
# Records written and read

A record whose members are fields of its reader, in the reader's order and none of them twice, is
taken as it was written. What each field is then read as depends on its own member alone, or on
there being none.

## Main definitions

* `Json.given`: a field that may be left out.

## Main results

* `Json.exists_record`: a record is taken as it was written.
* `Json.Record.required_of_find?`, `Json.Record.defaulted_of_find?` and their kin: what a field is
  read as.
* `Json.asChoice_text`, `Json.asList_array`: a name, and a list, are read as they were written.
* `Json.Exact.record`: everything of a record is written.
-/

namespace Upkeep.Json

variable {α : Type} {names : List String} {members found : List (String × Json)}

/-- The member of a field that is left out when there is nothing in it. -/
def given (name : String) (write : α → Json) : Option α → List (String × Json)
  | none => []
  | some a => [(name, write a)]

/-! ### The fields -/

theorem collect_members (known : ∀ member ∈ members, member.1 ∈ names)
    (distinct : ((found ++ members).map Prod.fst).Nodup) :
    collect names (members.map fun (name, value) => (some name, value)) found =
      some (found ++ members) := by
  induction members generalizing found with
  | nil => rw [List.map_nil, collect, List.append_nil]
  | cons member members ih =>
    obtain ⟨hknown, hothers⟩ := List.forall_mem_cons.mp known
    have hnew : (found.any fun (name, _) => name == member.1) = false := by
      rw [List.map_append, List.map_cons, List.nodup_append] at distinct
      rw [List.any_eq_false]
      intro other hother heq
      have hmem : other.1 ∈ found.map Prod.fst := List.mem_map_of_mem hother
      exact distinct.2.2 _ hmem _ List.mem_cons_self (eq_of_beq heq)
    rw [List.append_cons] at distinct ⊢
    rw [List.map_cons, collect, if_pos (List.contains_iff_mem.mpr hknown), hnew,
      if_neg Bool.false_ne_true, ih hothers distinct]

theorem Record.find?_eq_lookup (r : Record) (name : String) :
    r.find? name = r.fields.lookup name := by
  rw [find?]
  induction r.fields with
  | nil => rfl
  | cons field fields ih =>
    by_cases h : field.1 = name
    · subst h
      rw [List.lookup_cons_self, List.find?_cons_of_pos]
      · rfl
      · exact beq_self_eq_true field.1
    · have hne : (name == field.1) = false := beq_eq_false_iff_ne.mpr (Ne.symm h)
      rw [List.lookup_cons, hne, List.find?_cons_of_neg (by simpa using h)]
      exact ih

/-- **A record is taken as it was written.** -/
theorem exists_record (names : List String) {j : Json} (hj : j = record members)
    (distinct : names.Nodup) (h : (members.map Prod.fst).Sublist names) :
    ∃ r, asRecord names j = some r ∧ ∀ name, r.find? name = members.lookup name := by
  have known : ∀ member ∈ members, member.1 ∈ names :=
    fun member hmember => h.subset (List.mem_map_of_mem hmember)
  have hdistinct : (([] ++ members).map Prod.fst).Nodup := distinct.sublist h
  have hcollect := collect_members known hdistinct
  refine ⟨⟨members, false⟩, ?_, Record.find?_eq_lookup _⟩
  simp only [hj, asRecord, record, hcollect, Option.map_some, List.nil_append]

theorem lookup_given (field : String) (write : α → Json) (o : Option α) (name : String) :
    (given field write o).lookup name = if name = field then o.map write else none := by
  cases o with
  | none => simp [given]
  | some a =>
    rw [given, List.lookup_cons, List.lookup_nil]
    by_cases h : name = field
    · simp [h]
    · simp [h, beq_eq_false_iff_ne.mpr h]

namespace Record

variable {r : Record} {name : String} {j : Json} {a : α} {o : Option α} {read : Json → Option α}
  {write : α → Json}

theorem required_of_find? (h : r.find? name = some j) (hread : read j = some a) :
    r.required name read = some a := by
  rw [required, h, Option.bind_some, hread]

theorem orElse_of_find? {fallback : α} (h : r.find? name = some j) (hread : read j = some a) :
    r.orElse name fallback read = some a := by
  rw [orElse, h]
  exact hread

/-- A field that is left out when there is nothing in it. -/
theorem defaulted_of_find? (h : r.find? name = o.map write)
    (hwrite : ∀ a, write a ≠ .null) (hread : ∀ a ∈ o, read (write a) = some a) :
    r.defaulted name read = some o := by
  cases o with
  | none => simp only [defaulted, h, Option.map_none]
  | some a =>
    rw [defaulted, h, Option.map_some]
    split
    · next heq => cases heq
    · next heq => exact absurd (Option.some.inj heq) (hwrite a)
    · next value _ heq => rw [← Option.some.inj heq, hread a rfl, Option.map_some]

/-- A field that is null when there is nothing in it. -/
theorem optional_of_find? (h : r.find? name = some (Json.optional write o))
    (hwrite : ∀ a, write a ≠ .null) (hread : ∀ a ∈ o, read (write a) = some a) :
    r.optional name read = some o := by
  cases o with
  | none => simp only [optional, h, Json.optional]
  | some a =>
    rw [optional, h, Json.optional]
    split
    · next heq => cases heq
    · next heq => exact absurd (Option.some.inj heq) (hwrite a)
    · next value _ heq => rw [← Option.some.inj heq, hread a rfl, Option.map_some]

end Record

/-! ### Texts, names and lists -/

theorem asText_text (s : String) : asText (.text s) = some s := rfl

/-- **A choice is read from its name**, when no other choice has it. -/
theorem asChoice_text (name : α → String) (all : List α) {a : α}
    (distinct : (all.map name).Nodup) (hmem : a ∈ all) :
    asChoice (all.map fun b => (name b, b)) (.text (name a)) = some a := by
  have hfind : all.find? (fun b => name b == name a) = some a := by
    induction all with
    | nil => cases hmem
    | cons b all ih =>
      obtain ⟨hnew, hrest⟩ := List.nodup_cons.mp distinct
      rcases List.mem_cons.mp hmem with rfl | hlater
      · exact List.find?_cons_of_pos (beq_self_eq_true _)
      · have hne : name b ≠ name a := fun heq => hnew (heq ▸ List.mem_map_of_mem hlater)
        rw [List.find?_cons_of_neg (by simpa using hne), ih hrest hlater]
  rw [asChoice, asName, Option.bind_some, List.find?_map]
  simp only [Function.comp_def, hfind, Option.map_some]

theorem asList_array {read : Json → Option α} {write : α → Json} {l : List α}
    (h : ∀ a ∈ l, read (write a) = some a) : asList read (.array (l.map write)) = some l := by
  rw [asList]
  induction l with
  | nil => rfl
  | cons a l ih =>
    obtain ⟨ha, hl⟩ := List.forall_mem_cons.mp h
    rw [List.map_cons, List.mapM_cons, ha, ih hl]
    rfl

/-! ### What is written -/

theorem Exact.record (h : ∀ member ∈ members, Exact member.2) : Exact (record members) := by
  refine .object ?_ ?_ <;> rw [List.forall_mem_map]
  · intro member _
    rfl
  · exact h

theorem Exact.given {write : α → Json} (h : ∀ a, Exact (write a)) (name : String)
    (o : Option α) : ∀ member ∈ given name write o, Exact member.2 := by
  cases o with
  | none => rintro _ ⟨⟩
  | some a => simpa [Json.given] using h a

theorem Exact.list {write : α → Json} {l : List α} (h : ∀ a, Exact (write a)) :
    Exact (.array (l.map write)) :=
  .array (List.forall_mem_map.mpr fun a _ => h a)

theorem Exact.optional {write : α → Json} (h : ∀ a, Exact (write a)) (o : Option α) :
    Exact (Json.optional write o) := by
  cases o with
  | none => exact .null
  | some a => exact h a

theorem record_ne_null (members : List (String × Json)) : record members ≠ .null := by
  rintro ⟨⟩

end Upkeep.Json
