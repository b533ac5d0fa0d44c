import Mathlib.Data.List.Forall2
import Upkeep.Proofs.CommandLine.Items
import Upkeep.Proofs.Splitting

/-!
# The grammar of command lines

How arguments stand for what a command line says is a small grammar (`CommandLine.Reads`). Options
without a value may stand together in one argument. A path may be attached to its option, in two
ways, or be the argument after it, unless that looks like an option. After `--` there are no
options.

The machine that reads arguments settles a path only when the next option takes effect. So what has
been given is compared with what the items amount to by way of what would be given if the line ended
here (`CommandLine.State.settled?`). A line that ends right after an option that needs a path gives
nothing, so there is one more kind of state (`CommandLine.Awaits`), from which a path leads back to
the others.

## Main definitions

* `CommandLine.Word`, `CommandLine.Opening`: what one argument says.
* `CommandLine.Reads`: what arguments say.
* `CommandLine.Holds`, `CommandLine.Awaits`: the states of the machine between two arguments.

## Main results

* `CommandLine.reaches_word`, `CommandLine.reaches_opening_word`: one argument is taken.
* `CommandLine.outcome_reads`: the machine does what the grammar says.
-/

namespace Upkeep

namespace CommandLine

variable {items : List Item} {item : Item} {c : CommandLine}

/-! ### Arguments -/

/-- An argument that does not look like an option. -/
def Plain (arg : String) : Prop := ∀ c rest, arg.toList ≠ '-' :: c :: rest

theorem plain_of_head? {arg : String} (h : arg.toList.head? ≠ some '-') : Plain arg := by
  intro c rest harg
  rw [harg] at h
  exact h rfl

/-- The letters of some options. -/
def Letters (letters : String) (flags : List Flag) : Prop :=
  List.Forall₂ (fun c f => Flag.ofShort c = some f) letters.toList flags

/-- What an argument says that is complete. -/
inductive Word : String → List Item → Prop
  /-- A long option. -/
  | long (name : String) {f : Flag} (hname : Flag.ofLong name = some f) :
    Word ("--" ++ name) [.flag f]
  /-- The long option for the configuration file, and a path. -/
  | longPath (path : String) : Word ("--config=" ++ path) [.config path]
  /-- Short options. -/
  | short (letters : String) {flags : List Flag} (hsome : letters ≠ "")
    (hletters : Letters letters flags) : Word ("-" ++ letters) (flags.map .flag)
  /-- Short options, that for the configuration file as the last of them, and a path. -/
  | shortPath {letters path : String} {flags : List Flag} (hletters : Letters letters flags)
    (hsome : path ≠ "") (hequals : path.toList.head? ≠ some '=') :
    Word ("-" ++ letters ++ "c" ++ path) (flags.map .flag ++ [.config path])
  /-- The same with an equals sign, which is not part of the path. -/
  | shortEquals {letters : String} {flags : List Flag} (hletters : Letters letters flags)
    (path : String) :
    Word ("-" ++ letters ++ "c=" ++ path) (flags.map .flag ++ [.config path])

/-- What an argument says after which the path of the configuration file is missing. -/
inductive Opening : String → List Item → Prop
  /-- The long option. -/
  | long : Opening "--config" []
  /-- Short options, that for the configuration file as the last of them. -/
  | short (letters : String) {flags : List Flag} (hletters : Letters letters flags) :
    Opening ("-" ++ letters ++ "c") (flags.map .flag)

/-- **What arguments say**, in their order. -/
inductive Reads : List String → List Item → Prop
  /-- No arguments say nothing. -/
  | nil : Reads [] []
  /-- Options that need nothing more. -/
  | word {w : String} {args : List String} {items items' : List Item} (hw : Word w items)
    (hargs : Reads args items') : Reads (w :: args) (items ++ items')
  /-- Options, and the path that the last of them needs. -/
  | opening {w path : String} {args : List String} {items items' : List Item}
    (hw : Opening w items) (hpath : Plain path) (hargs : Reads args items') :
    Reads (w :: path :: args) (items ++ .config path :: items')
  /-- A path. -/
  | plain {path : String} {args : List String} {items : List Item} (hpath : Plain path)
    (hargs : Reads args items) : Reads (path :: args) (.positional path :: items)
  /-- Nothing but paths. -/
  | rest (paths : List String) : Reads ("--" :: paths) (paths.map .positional)

/-! ### States of the machine -/

namespace State

/-- What has been given if the line ends here; nothing if it must not. -/
def settled? (st : State) : Option CommandLine := (settlePending st).toOption.map State.given

variable {st : State}

theorem settled?_of_none (h : st.pending = none) : st.settled? = some st.given := by
  rw [settled?, settlePending, h]
  rfl

theorem settled?_of_some {target : Target} {value : Option String}
    (h : st.pending = some (target, value)) :
    st.settled? = (settle st.given target value).toOption := by
  rw [settled?, settlePending, h]
  cases hsettle : settle st.given target value <;>
    simp [hsettle, Except.toOption, bind, Except.bind]

theorem settled?_ended (st : State) (ended : Bool) :
    { st with optionsEnded := ended }.settled? = st.settled? := by
  obtain ⟨given, pending, positionalSeen, optionsEnded⟩ := st
  cases hpending : pending with
  | none => rw [settled?_of_none rfl, settled?_of_none rfl]
  | some value => rw [settled?_of_some rfl, settled?_of_some rfl]

/-- What is not settled yet can be settled, or it cannot. -/
theorem settlePending_cases (st : State) :
    (∃ e, settlePending st = .error e ∧ st.settled? = none) ∨
      ∃ given, settlePending st = .ok { st with given := given, pending := none } ∧
        st.settled? = some given := by
  rw [settled?, settlePending]
  rcases hpending : st.pending with _ | ⟨target, value⟩
  · refine Or.inr ⟨st.given, ?_, rfl⟩
    obtain ⟨given, pending, positionalSeen, optionsEnded⟩ := st
    cases hpending
    rfl
  · cases hsettle : settle st.given target value with
    | error e => exact Or.inl ⟨e, by simp [hsettle, bind, Except.bind], by
        simp [hsettle, bind, Except.bind, Except.toOption]⟩
    | ok given => exact Or.inr ⟨given, by simp [hsettle, bind, Except.bind], by
        simp [hsettle, bind, Except.bind, Except.toOption]⟩

end State

/-- What an item gives does not take the path away that was given without an option. -/
theorem configFile_of_process {c' : CommandLine} (h : process c item = some c')
    (hc : c.configFile ≠ none) : c'.configFile ≠ none := by
  cases item with
  | flag f =>
    have hsame : c'.configFile = c.configFile := by
      rw [process] at h
      cases happly : applyFlag c f with
      | error e => rw [happly] at h; cases h
      | ok c'' =>
        rw [happly] at h
        cases h
        cases f <;> simp only [applyFlag] at happly <;> (try split at happly) <;> cases happly <;>
          rfl
    rwa [hsame]
  | config path =>
    rw [process, settle] at h
    split at h
    · cases h
    · split at h
      · cases h
      · cases h
        exact hc
  | positional path =>
    rw [process, settle, if_pos (Option.isSome_iff_ne_none.mpr hc)] at h
    cases h

/-- The machine stands between two things that are said, with the options ended or not. -/
structure Holds (ended : Bool) (st : State) (o : Option CommandLine) : Prop where
  /-- Whether `--` has been there. -/
  ended : st.optionsEnded = ended
  /-- This has been given if the line ends here. -/
  settled : st.settled? = o
  /-- No path is missing. -/
  complete : st.pending ≠ some (.option, none)
  /-- A path that has been there has been given. -/
  seen : st.positionalSeen = true → ∀ c ∈ o, c.configFile ≠ none

/-- The machine stands right after the option for the configuration file. -/
structure Awaits (st : State) (o : Option CommandLine) : Prop where
  /-- There can still be options. -/
  ended : st.optionsEnded = false
  /-- The path is missing. -/
  pending : st.pending = some (.option, none)
  /-- All else is settled. -/
  settled : o = some st.given
  /-- A path without an option that has been there has been given. -/
  seen : st.positionalSeen = true → st.given.configFile ≠ none

/-- The machine gets to a state of some kind, unless nothing has been given. -/
def Reaches (kind : State → Option CommandLine → Prop) (r : Except UsageError State)
    (o : Option CommandLine) : Prop :=
  match r with
  | .error _ => o = none
  | .ok st => kind st o

variable {kind kind' : State → Option CommandLine → Prop} {r : Except UsageError State}
  {o : Option CommandLine} {st : State} {ended : Bool}

theorem Reaches.bind {next : State → Except UsageError State}
    {more : CommandLine → Option CommandLine} (h : Reaches kind r o)
    (hnext : ∀ st, kind st o → Reaches kind' (next st) (o.bind more)) :
    Reaches kind' (r >>= next) (o.bind more) := by
  cases r with
  | error e =>
    obtain rfl : o = none := h
    exact rfl
  | ok st => exact hnext st h

/-- What is not settled yet is settled first. -/
theorem Holds.settle {next : State → Except UsageError State}
    {more : CommandLine → Option CommandLine} (h : Holds ended st o)
    (hnext : ∀ given, o = some given →
      Reaches kind (next { st with given := given, pending := none }) (more given)) :
    Reaches kind (settlePending st >>= next) (o.bind more) := by
  rcases st.settlePending_cases with ⟨e, hsettle, hnone⟩ | ⟨given, hsettle, hsome⟩
  · obtain rfl : o = none := h.settled.symm.trans hnone
    rw [hsettle]
    exact rfl
  · obtain rfl : o = some given := h.settled.symm.trans hsome
    rw [hsettle]
    exact hnext given rfl

/-- What an item gives is given. -/
theorem Holds.give {given : CommandLine} {result : Except UsageError CommandLine}
    (h : Holds ended st (some given)) (hresult : process given item = result.toOption) :
    Reaches (Holds ended)
      (result >>= fun c => .ok { { st with given := given, pending := none } with given := c })
      (process given item) := by
  cases result with
  | error e => exact hresult
  | ok c =>
    have hprocess : process given item = some c := hresult
    rw [hprocess]
    exact ⟨h.ended, State.settled?_of_none rfl, by simp, fun hseen c' hc' =>
      Option.mem_some_iff.mp hc' ▸ configFile_of_process hprocess (h.seen hseen given rfl)⟩

theorem reaches_flag (h : Holds ended st o) (f : Flag) :
    Reaches (Holds ended) (takeFlag st f) (o.bind (process · (.flag f))) :=
  h.settle fun _ hgiven => Holds.give (hgiven ▸ h) rfl

theorem reaches_config (h : Holds ended st o) (path : String) :
    Reaches (Holds ended) (takeConfig st (some path)) (o.bind (process · (.config path))) :=
  h.settle fun _ hgiven => Holds.give (hgiven ▸ h) rfl

theorem reaches_opening (h : Holds false st o) : Reaches Awaits (takeConfig st none) o := by
  rw [← Option.bind_fun_some o]
  exact h.settle fun given hgiven =>
    ⟨h.ended, rfl, rfl, fun hseen => h.seen hseen given hgiven⟩

theorem reaches_positional (h : Holds ended st o) (path : String) :
    Reaches (Holds ended) (takePlain st path) (o.bind (process · (.positional path))) := by
  rw [takePlain]
  split
  · rename_i hseen
    -- the path that has been there is settled by now, or cannot be
    cases o with
    | none => exact rfl
    | some given =>
      simp [Reaches, process, CommandLine.settle, Option.isSome_iff_ne_none, h.seen hseen given rfl,
        Except.toOption]
  · refine h.settle fun given hgiven => ?_
    refine ⟨h.ended, State.settled?_of_some rfl, by simp, fun _ c hc => ?_⟩
    rw [process, CommandLine.settle] at hc
    split at hc
    · cases hc
    · split at hc
      · cases hc
      · cases hc
        simp

/-! ### Taking arguments -/

/-- An argument that does not look like an option is a path. -/
theorem take_plain {arg : String} (h : Plain arg) (hended : st.optionsEnded = false) :
    take st arg = match st.pending with
      | some (.option, none) => .ok { st with pending := some (.option, some arg) }
      | _ => takePlain st arg := by
  rw [take, hended, if_neg Bool.false_ne_true]
  split
  · rename_i harg
    exact absurd harg (h '-' [])
  · rename_i long _ harg
    exact absurd harg (h '-' long)
  · rename_i c rest _ _ harg
    exact absurd harg (h c rest)
  · rfl

theorem take_of_plain {arg : String} (h : Plain arg) (hended : st.optionsEnded = false)
    (hcomplete : st.pending ≠ some (.option, none)) : take st arg = takePlain st arg := by
  rw [take_plain h hended]
  split
  · rename_i hpending
    exact absurd hpending hcomplete
  · rfl

theorem take_of_awaits {path : String} (h : Plain path) (hawaits : Awaits st o) :
    take st path = .ok { st with pending := some (.option, some path) } := by
  rw [take_plain h hawaits.ended, hawaits.pending]

theorem reaches_awaited {path : String} (h : Plain path) (hawaits : Awaits st o) :
    Reaches (Holds false) (take st path) (o.bind (process · (.config path))) := by
  rw [take_of_awaits h hawaits]
  obtain rfl := hawaits.settled
  refine ⟨hawaits.ended, State.settled?_of_some rfl, by simp, fun hseen c hc => ?_⟩
  have hprocess : process st.given (.config path) = some c := hc
  exact configFile_of_process hprocess (hawaits.seen hseen)

theorem take_long {name : String} (hsome : name.toList ≠ []) (hended : st.optionsEnded = false)
    (hcut : Text.cut '=' name.toList = none) : take st ("--" ++ name) = takeLong st name none := by
  have hlist : ("--" ++ name).toList = '-' :: '-' :: name.toList := by simp
  rw [take, hended, if_neg Bool.false_ne_true, hlist]
  cases hname : name.toList with
  | nil => exact absurd hname hsome
  | cons c cs =>
    have hofList : String.ofList (c :: cs) = name := by rw [← hname, String.ofList_toList]
    rw [hname] at hcut
    simp only [hcut, hofList]

theorem take_valued {name : String} {option value : List Char} (hended : st.optionsEnded = false)
    (hcut : Text.cut '=' name.toList = some (option, value)) : take st ("--" ++ name) =
      takeLong st (String.ofList option) (some (String.ofList value)) := by
  have hlist : ("--" ++ name).toList = '-' :: '-' :: name.toList := by simp
  rw [take, hended, if_neg Bool.false_ne_true, hlist]
  cases hname : name.toList with
  | nil =>
    rw [hname] at hcut
    cases hcut
  | cons c cs =>
    rw [hname] at hcut
    simp only [hcut]

theorem take_short {letters : String} (hsome : letters ≠ "")
    (hdash : letters.toList.head? ≠ some '-') (hended : st.optionsEnded = false) :
    take st ("-" ++ letters) = takeShort st letters.toList := by
  cases hletters : letters.toList with
  | nil => exact absurd (String.toList_eq_nil_iff.mp hletters) hsome
  | cons c cs =>
    have hlist : ("-" ++ letters).toList = '-' :: c :: cs := by simp [hletters]
    have hc : c ≠ '-' := by
      rintro rfl
      rw [hletters] at hdash
      exact hdash rfl
    rw [take, hended, if_neg Bool.false_ne_true, hlist]
    split
    · rename_i harg
      simp_all
    · rename_i long harg
      simp_all
    · rename_i c' rest harg
      cases harg
      rfl
    · rename_i harg
      exact absurd rfl (harg c cs)

/-! ### What options say -/

/-- The names of options. -/
theorem ofLong_eq_some {name : String} {f : Flag} (h : Flag.ofLong name = some f) :
    name.toList ≠ [] ∧ '=' ∉ name.toList ∧ name ≠ "config" := by
  unfold Flag.ofLong at h
  split at h <;> first | decide | cases h

theorem ofShort_eq_some {letter : Char} {f : Flag} (h : Flag.ofShort letter = some f) :
    letter ≠ 'c' ∧ letter ≠ '-' := by
  unfold Flag.ofShort at h
  split at h <;> first | decide | cases h

theorem takeLong_of_name {name : String} {f : Flag} (h : Flag.ofLong name = some f) :
    takeLong st name none = takeFlag st f := by
  rw [takeLong, if_neg (by simp [(ofLong_eq_some h).2.2]), h]

theorem takeShort_cons {letter : Char} {f : Flag} (h : Flag.ofShort letter = some f)
    (rest : List Char) :
    takeShort st (letter :: rest) = takeFlag st f >>= (takeShort · rest) := by
  conv => lhs; unfold takeShort
  rw [if_neg (by simp [(ofShort_eq_some h).1]), h]

theorem takeShort_config : takeShort st ['c'] = takeConfig st none := by
  simp [takeShort]

theorem takeShort_equals (path : List Char) :
    takeShort st ('c' :: '=' :: path) = takeConfig st (some (String.ofList path)) := by
  simp [takeShort]

theorem takeShort_path {path : List Char} (hsome : path ≠ []) (hequals : path.head? ≠ some '=') :
    takeShort st ('c' :: path) = takeConfig st (some (String.ofList path)) := by
  unfold takeShort
  rw [if_pos (beq_self_eq_true 'c')]
  split
  · exact absurd rfl hsome
  · exact absurd rfl hequals
  · rfl

/-- Short options are taken one after the other. -/
theorem reaches_letters {letters : List Char} {flags : List Flag} {rest : List Char}
    {more : CommandLine → Option CommandLine}
    (hletters : List.Forall₂ (fun c f => Flag.ofShort c = some f) letters flags)
    (hrest : ∀ st o, Holds false st o → Reaches kind (takeShort st rest) (o.bind more))
    (h : Holds false st o) : Reaches kind (takeShort st (letters ++ rest))
      (o.bind fun c => ((flags.map Item.flag).foldlM process c).bind more) := by
  induction hletters generalizing st o with
  | nil => simpa using hrest st o h
  | @cons letter f letters flags hletter hletters ih =>
    rw [List.cons_append, takeShort_cons hletter]
    have hflag := (reaches_flag h f).bind fun st hst => ih hst
    simpa [Option.bind_assoc] using hflag

/-- The letters of an argument are taken, and so is what follows them. -/
theorem reaches_cluster {letters rest : String} {flags : List Flag}
    {more : CommandLine → Option CommandLine} (hletters : Letters letters flags)
    (hsome : letters ++ rest ≠ "") (hdash : rest.toList.head? ≠ some '-')
    (hrest : ∀ st o, Holds false st o → Reaches kind (takeShort st rest.toList) (o.bind more))
    (h : Holds false st o) : Reaches kind (take st ("-" ++ letters ++ rest))
      (o.bind fun c => ((flags.map Item.flag).foldlM process c).bind more) := by
  have hfirst : letters.toList.head? ≠ some '-' := by
    unfold Letters at hletters
    generalize letters.toList = cs at hletters
    cases hletters with
    | nil => simp
    | cons hletter hletters => simp [(ofShort_eq_some hletter).2]
  have hhead : (letters ++ rest).toList.head? ≠ some '-' := by
    rw [String.toList_append, List.head?_append]
    cases hhead : letters.toList.head? with
    | none => simpa using hdash
    | some c => simpa [hhead] using hfirst
  rw [String.append_assoc, take_short hsome hhead h.ended, String.toList_append]
  exact reaches_letters hletters hrest h

/-- **What a complete argument says** is taken. -/
theorem reaches_word {w : String} (hw : Word w items) (h : Holds false st o) :
    Reaches (Holds false) (take st w) (o.bind (items.foldlM process)) := by
  cases hw with
  | @long name f hname =>
    obtain ⟨hsome, hequals, -⟩ := ofLong_eq_some hname
    have hcut : Text.cut '=' name.toList = none := Text.cut_eq_none hequals
    rw [take_long hsome h.ended hcut, takeLong_of_name hname]
    simpa using reaches_flag h f
  | longPath path =>
    have hcut : Text.cut '=' ("config=" ++ path).toList = some ("config".toList, path.toList) := by
      have hname : '=' ∉ "config".toList := by decide
      simpa using Text.cut_append hname path.toList
    have hlong : "--config=" ++ path = "--" ++ ("config=" ++ path) := by
      rw [← String.append_assoc]
      rfl
    rw [hlong, take_valued h.ended hcut]
    simpa [takeLong] using reaches_config h path
  | @short letters flags hsome hletters =>
    have hnothing : ∀ st o, Holds false st o →
        Reaches (Holds false) (takeShort st "".toList) (o.bind some) :=
      fun st o hst => by simpa [takeShort, Reaches] using hst
    simpa using reaches_cluster hletters (by simpa using hsome) (by simp) hnothing h
  | @shortPath letters path flags hletters hsome hequals =>
    have hpath : ∀ st o, Holds false st o →
        Reaches (Holds false) (takeShort st ("c" ++ path).toList)
          (o.bind (process · (.config path))) := fun st o hst => by
      have hne : path.toList ≠ [] := fun hnil => hsome (String.toList_eq_nil_iff.mp hnil)
      simpa [takeShort_path hne hequals] using reaches_config hst path
    have hcluster := reaches_cluster hletters (by simp) (by simp) hpath h
    rw [← String.append_assoc] at hcluster
    simpa [List.foldlM_append] using hcluster
  | @shortEquals letters flags hletters path =>
    have hpath : ∀ st o, Holds false st o →
        Reaches (Holds false) (takeShort st ("c=" ++ path).toList)
          (o.bind (process · (.config path))) := fun st o hst => by
      simpa [takeShort_equals] using reaches_config hst path
    have hcluster := reaches_cluster hletters (by simp) (by simp) hpath h
    rw [← String.append_assoc] at hcluster
    simpa [List.foldlM_append] using hcluster

/-- **What an argument says after which a path is missing** is taken. -/
theorem reaches_opening_word {w : String} (hw : Opening w items) (h : Holds false st o) :
    Reaches Awaits (take st w) (o.bind (items.foldlM process)) := by
  have hnothing : ∀ st o, Holds false st o → Reaches Awaits (takeConfig st none) (o.bind some) :=
    fun st o hst => by simpa using reaches_opening hst
  cases hw with
  | long =>
    have hcut : Text.cut '=' "config".toList = none := Text.cut_eq_none (by decide)
    have hlong : "--config" = "--" ++ "config" := rfl
    rw [hlong, take_long (by decide) h.ended hcut]
    simpa [takeLong] using reaches_opening h
  | @short letters flags hletters =>
    have hconfig : ∀ st o, Holds false st o →
        Reaches Awaits (takeShort st "c".toList) (o.bind some) :=
      fun st o hst => by
        have hletter : "c".toList = ['c'] := by decide
        rw [hletter, takeShort_config]
        exact hnothing st o hst
    simpa using reaches_cluster hletters (by simp) (by simp) hconfig h

/-! ### Taking all arguments -/

/-- What has been given when arguments have been taken; nothing if they are not accepted. -/
def outcome (r : Except UsageError State) : Option CommandLine := r.toOption.bind State.settled?

theorem Reaches.outcome {next : State → Except UsageError State}
    {more : CommandLine → Option CommandLine} (h : Reaches kind r o)
    (hnext : ∀ st, kind st o → CommandLine.outcome (next st) = o.bind more) :
    CommandLine.outcome (r >>= next) = o.bind more := by
  cases r with
  | error e =>
    obtain rfl : o = none := h
    rfl
  | ok st => exact hnext st h

/-- After `--` there are paths. -/
theorem outcome_paths {paths : List String} (h : Holds true st o) :
    outcome (paths.foldlM take st) = o.bind ((paths.map Item.positional).foldlM process) := by
  induction paths generalizing st o with
  | nil =>
    rw [← h.settled]
    simp [outcome, pure, Except.pure, Except.toOption]
  | cons path paths ih =>
    have htake : take st path = takePlain st path := by rw [take, h.ended, if_pos rfl]
    have hpath := (reaches_positional h path).outcome fun st hst => ih hst
    rw [List.foldlM_cons, htake, hpath, Option.bind_assoc]
    rfl

/-- **The machine does what the grammar says.** -/
theorem outcome_reads {args : List String} (hreads : Reads args items) (h : Holds false st o) :
    outcome (args.foldlM take st) = o.bind (items.foldlM process) := by
  induction hreads generalizing st o with
  | nil =>
    rw [← h.settled]
    simp [outcome, pure, Except.pure, Except.toOption]
  | @word w args items items' hw hargs ih =>
    have hword := (reaches_word hw h).outcome fun st hst => ih hst
    rw [List.foldlM_cons, hword, Option.bind_assoc]
    simp [List.foldlM_append]
  | @opening w path args items items' hw hpath hargs ih =>
    have hrest : ∀ st, Awaits st (o.bind (items.foldlM process)) →
        outcome ((path :: args).foldlM take st) = (o.bind (items.foldlM process)).bind fun c =>
          (process c (.config path)).bind (items'.foldlM process) := by
      intro st hst
      rw [List.foldlM_cons, ← Option.bind_assoc]
      exact (reaches_awaited hpath hst).outcome fun st hst => ih hst
    rw [List.foldlM_cons, (reaches_opening_word hw h).outcome hrest, Option.bind_assoc]
    simp [List.foldlM_append]
  | @plain path args items hpath hargs ih =>
    have htake := take_of_plain hpath h.ended h.complete
    have hword := (reaches_positional h path).outcome fun st hst => ih hst
    rw [List.foldlM_cons, htake, hword, Option.bind_assoc]
    rfl
  | rest paths =>
    have htake : take st "--" = .ok { st with optionsEnded := true } := by
      rw [take, h.ended, if_neg Bool.false_ne_true]
      rfl
    rw [List.foldlM_cons, htake]
    exact outcome_paths ⟨rfl, (st.settled?_ended true).trans h.settled, h.complete, h.seen⟩

end CommandLine

end Upkeep
