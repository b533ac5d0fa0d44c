import Mathlib.Data.List.Basic
import Mathlib.Data.List.Induction
import Upkeep.CommandLine

/-!
# What a command line says

A command line says a list of things: options, in the order in which they are given, and paths. It
is accepted if each of them may follow the others that are before it (`CommandLine.Fits`) and there
are no two that exclude each other. Only in that order is there anything to compare: of an option
and its opposite the last one given stands, so one that was given before may be given again once its
opposite has been there.

Then every field of the command line is one of the list (`CommandLine.amount`), and what a run reads
off it can be said without the machine that read it (`CommandLine.Says`).

## Main definitions

* `CommandLine.Item`: one thing that a command line says.
* `CommandLine.amount`: what items amount to.
* `CommandLine.Fits`, `CommandLine.Accepted`: which items are accepted.
* `CommandLine.Says`: a command line is what items say.

## Main results

* `CommandLine.process_eq_some_iff`: what items amount to, one after the other.
* `CommandLine.Accepted.meant`: what is accepted is said.
-/

namespace Upkeep

namespace CommandLine

/-! ### Items -/

/-- One thing that a command line says. -/
inductive Item where
  /-- An option without a value. -/
  | flag (f : Flag)
  /-- The configuration file, given with its option. -/
  | config (path : String)
  /-- The configuration file, given without an option. -/
  | positional (path : String)
  deriving DecidableEq, Repr

namespace Item

/-- The word on installing, if the item is one. -/
def install? : Item → Option Bool
  | .flag .installUpdates => some true
  | .flag .noInstallUpdates => some false
  | _ => none

/-- The word on downloading, if the item is one. -/
def download? : Item → Option Bool
  | .flag .downloadUpdates => some true
  | .flag .noDownloadUpdates => some false
  | _ => none

/-- The path that the item gives, one way or the other. -/
def path? : Item → Option String
  | .config path | .positional path => some path
  | .flag _ => none

/-- The path that the item gives with the option. -/
def config? : Item → Option String
  | .config path => some path
  | _ => none

/-- The path that the item gives without an option. -/
def positional? : Item → Option String
  | .positional path => some path
  | _ => none

end Item

variable {items done : List Item} {item : Item} {c : CommandLine}

/-- What the last item says about something, of those that say anything about it. -/
def last? {α : Type} (about : Item → Option α) (items : List Item) : Option α :=
  (items.filterMap about).getLast?

theorem last?_concat {α : Type} (about : Item → Option α) (items : List Item) (item : Item) :
    last? about (items ++ [item]) = (about item).or (last? about items) := by
  rw [last?, List.filterMap_append]
  cases h : about item with
  | none => simp [h, last?]
  | some a => simp [h]

theorem last?_eq_none_iff {α : Type} {about : Item → Option α} :
    last? about items = none ↔ ∀ item ∈ items, about item = none := by
  simp [last?]

/-- What items amount to. -/
def amount (items : List Item) : CommandLine where
  configFile := last? Item.positional? items
  config := last? Item.config? items
  timer := decide (.flag .timer ∈ items)
  installUpdates := decide (last? Item.install? items = some true)
  noInstallUpdates := decide (last? Item.install? items = some false)
  downloadUpdates := decide (last? Item.download? items = some true)
  noDownloadUpdates := decide (last? Item.download? items = some false)
  verbose := min (items.count (.flag .verbose)) 255
  quiet := decide (.flag .quiet ∈ items)
  json := decide (.flag .json ∈ items)

/-- Whether an item may follow some others: help and the version cannot be had with anything, an
option does not say what already holds, except for the one that is counted, and there is one path of
each kind. -/
def Fits (done : List Item) : Item → Prop
  | .flag .timer => .flag .timer ∉ done
  | .flag .installUpdates => last? Item.install? done ≠ some true
  | .flag .noInstallUpdates => last? Item.install? done ≠ some false
  | .flag .downloadUpdates => last? Item.download? done ≠ some true
  | .flag .noDownloadUpdates => last? Item.download? done ≠ some false
  | .flag .verbose => True
  | .flag .quiet => .flag .quiet ∉ done
  | .flag .json => .flag .json ∉ done
  | .flag .help => False
  | .flag .version => False
  | .config path => last? Item.config? done = none ∧ path ≠ ""
  | .positional path => last? Item.positional? done = none ∧ path ≠ ""

/-- What one more item makes of what has been given. -/
def process (c : CommandLine) : Item → Option CommandLine
  | .flag f => (applyFlag c f).toOption
  | .config path => (settle c .option (some path)).toOption
  | .positional path => (settle c .positional (some path)).toOption

theorem min_succ_min (n : Nat) : min (min n 255 + 1) 255 = min (n + 1) 255 := by omega

theorem applyFlag_amount (done : List Item) (f : Flag) :
    (Fits done (.flag f) → (applyFlag (amount done) f).toOption =
      some (amount (done ++ [.flag f]))) ∧
    (¬Fits done (.flag f) → (applyFlag (amount done) f).toOption = none) := by
  cases f <;> refine ⟨fun hfits => ?_, fun hfits => ?_⟩ <;>
    simp_all [Fits, applyFlag, amount, last?_concat, Item.install?, Item.download?, Item.config?,
      Item.positional?, Except.toOption, min_succ_min]

/-- **One more item** amounts to itself and those before it, if it may follow them. -/
theorem process_amount (done : List Item) (item : Item) :
    (Fits done item → process (amount done) item = some (amount (done ++ [item]))) ∧
      (¬Fits done item → process (amount done) item = none) := by
  cases item with
  | flag f => exact applyFlag_amount done f
  | config path =>
    cases hlast : last? Item.config? done <;> by_cases hpath : path = "" <;>
      simp [Fits, process, settle, amount, last?_concat, Item.install?, Item.download?,
        Item.config?, Item.positional?, Except.toOption, hlast, hpath]
  | positional path =>
    cases hlast : last? Item.positional? done <;> by_cases hpath : path = "" <;>
      simp [Fits, process, settle, amount, last?_concat, Item.install?, Item.download?,
        Item.config?, Item.positional?, Except.toOption, hlast, hpath]

/-- **What items amount to**, one after the other. -/
theorem process_eq_some_iff : items.foldlM process (amount done) = some c ↔
    (∀ before item after, items = before ++ item :: after → Fits (done ++ before) item) ∧
      c = amount (done ++ items) := by
  induction items generalizing done with
  | nil => simp [eq_comm]
  | cons item items ih =>
    rw [List.foldlM_cons]
    by_cases hfits : Fits done item
    · rw [(process_amount done item).1 hfits, Option.bind_eq_bind, Option.bind_some, ih,
        List.append_assoc, List.singleton_append]
      refine and_congr_left fun _ => ⟨fun hrest before item' after heq => ?_,
        fun hall before item' after heq => ?_⟩
      · cases before with
        | nil =>
          obtain ⟨rfl, -⟩ := List.cons.inj heq
          rwa [List.append_nil]
        | cons first before =>
          obtain ⟨rfl, htail⟩ := List.cons.inj heq
          simpa using hrest before item' after htail
      · simpa using hall (item :: before) item' after (congrArg (item :: ·) heq)
    · rw [(process_amount done item).2 hfits]
      refine iff_of_false (by simp) fun h => hfits ?_
      simpa using h.1 [] item items rfl

/-! ### Accepted items -/

/-- Which items are accepted: each fits those before it, there are not both kinds of paths, and
silence is not asked for together with more messages. -/
structure Accepted (items : List Item) : Prop where
  /-- Each item fits those before it. -/
  fits : ∀ before item after, items = before ++ item :: after → Fits before item
  /-- There is one kind of path. -/
  oneKind : last? Item.config? items = none ∨ last? Item.positional? items = none
  /-- Who is quiet is not verbose. -/
  quiet : .flag .quiet ∈ items → .flag .verbose ∉ items

theorem conflicts_amount (items : List Item) : conflicts (amount items) = false ↔
    (last? Item.config? items = none ∨ last? Item.positional? items = none) ∧
      (.flag .quiet ∈ items → .flag .verbose ∉ items) := by
  have hcount : 0 < min (items.count (.flag .verbose)) 255 ↔ .flag .verbose ∈ items := by
    rw [← List.count_pos_iff (a := Item.flag .verbose)]
    omega
  cases hconfig : last? Item.config? items <;> cases hpositional : last? Item.positional? items <;>
    simp [conflicts, amount, hconfig, hpositional, hcount]

/-- A command line is what items say. -/
structure Says (items : List Item) (c : CommandLine) : Prop where
  /-- The last word on installing stands. -/
  install : c.installOverride = last? Item.install? items
  /-- The last word on downloading stands. -/
  download : c.downloadOverride = last? Item.download? items
  /-- Of an option and its opposite one stands at most. -/
  opposites : ¬(c.installUpdates = true ∧ c.noInstallUpdates = true) ∧
    ¬(c.downloadUpdates = true ∧ c.noDownloadUpdates = true)
  /-- More messages are counted, as far as the counter goes. -/
  verbose : c.verbose = min (items.count (.flag .verbose)) 255
  /-- Who asks for silence does not ask for more messages. -/
  quiet : c.quiet = decide (.flag .quiet ∈ items) ∧
    (c.quiet = true → items.count (.flag .verbose) = 0)
  /-- There is one path at most, given with the option or without it. -/
  onePath : (items.filterMap Item.path?).length ≤ 1
  /-- It is the path of the configuration; without it the default is. -/
  path : (∀ given, .config given ∈ items ∨ .positional given ∈ items → c.configPath = given) ∧
    (items.filterMap Item.path? = [] → c.configPath = Config.defaultPath)

theorem length_filterMap_le_one {α : Type} {about : Item → Option α}
    (h : ∀ before item after, items = before ++ item :: after → about item ≠ none →
      last? about before = none) : (items.filterMap about).length ≤ 1 := by
  induction items using List.reverseRecOn with
  | nil => simp
  | append_singleton items item ih =>
    have hbefore := ih fun before item' after heq =>
      h before item' (after ++ [item]) (by simp [heq])
    rw [List.filterMap_append]
    cases habout : about item with
    | none => simpa [habout] using hbefore
    | some a =>
      have hnone := h items item [] rfl (by simp [habout])
      have hnil : items.filterMap about = [] := by simpa [last?] using hnone
      simp [hnil, habout]

/-- Where there is one kind of path, the path is of that kind. -/
theorem last?_path (h : last? Item.config? items = none ∨ last? Item.positional? items = none) :
    last? Item.path? items = (last? Item.config? items).or (last? Item.positional? items) := by
  rcases h with hnone | hnone
  · rw [hnone, Option.none_or, last?, last?, List.filterMap_congr fun item hitem => ?_]
    have hitem := last?_eq_none_iff.mp hnone item hitem
    cases item <;> simp_all [Item.path?, Item.config?, Item.positional?]
  · rw [hnone, Option.or_none, last?, last?, List.filterMap_congr fun item hitem => ?_]
    have hitem := last?_eq_none_iff.mp hnone item hitem
    cases item <;> simp_all [Item.path?, Item.config?, Item.positional?]

/-- There is one path at most. -/
theorem Accepted.length_path (h : Accepted items) : (items.filterMap Item.path?).length ≤ 1 := by
  refine length_filterMap_le_one fun before item after heq hpath => ?_
  have hmem : item ∈ items := by simp [heq]
  have hsub : before ⊆ items := by simp [heq]
  have hfits := h.fits before item after heq
  cases item with
  | flag f => exact absurd rfl hpath
  | config path =>
    have hpositional : last? Item.positional? items = none :=
      h.oneKind.resolve_left fun hnone => by
        have hnone := last?_eq_none_iff.mp hnone _ hmem
        cases hnone
    rw [last?_path (Or.inl hfits.1), hfits.1, Option.none_or, last?_eq_none_iff]
    exact fun item hitem => last?_eq_none_iff.mp hpositional item (hsub hitem)
  | positional path =>
    have hconfig : last? Item.config? items = none :=
      h.oneKind.resolve_right fun hnone => by
        have hnone := last?_eq_none_iff.mp hnone _ hmem
        cases hnone
    rw [last?_path (Or.inr hfits.1), hfits.1, Option.or_none, last?_eq_none_iff]
    exact fun item hitem => last?_eq_none_iff.mp hconfig item (hsub hitem)

theorem flagPair_decide (word : Option Bool) :
    flagPair (decide (word = some true)) (decide (word = some false)) = word := by
  rcases word with _ | _ | _ <;> rfl

/-- **What is accepted is said.** -/
theorem Accepted.meant (h : Accepted items) : Says items (amount items) where
  install := flagPair_decide (last? Item.install? items)
  download := flagPair_decide (last? Item.download? items)
  opposites := by
    simp only [amount, decide_eq_true_eq]
    exact ⟨fun ⟨hyes, hno⟩ => by simp [hyes] at hno, fun ⟨hyes, hno⟩ => by simp [hyes] at hno⟩
  verbose := rfl
  quiet := ⟨rfl, fun hquiet => List.count_eq_zero.mpr (h.quiet (by simpa [amount] using hquiet))⟩
  onePath := h.length_path
  path := by
    have hpath : (amount items).configPath = (last? Item.path? items).getD Config.defaultPath := by
      rw [last?_path h.oneKind]
      rfl
    rw [hpath]
    refine ⟨fun given hgiven => ?_, fun hnone => by rw [last?, hnone]; rfl⟩
    have hmem : given ∈ items.filterMap Item.path? := by
      rcases hgiven with hmem | hmem <;> exact List.mem_filterMap.mpr ⟨_, hmem, rfl⟩
    obtain ⟨only, honly⟩ := List.length_eq_one_iff.mp
      (Nat.le_antisymm h.length_path (List.length_pos_of_mem hmem))
    rw [honly, List.mem_singleton] at hmem
    rw [last?, honly, hmem]
    rfl

end CommandLine

end Upkeep
