import Upkeep.ConfigFile
import Upkeep.Proofs.CommandLine.Grammar

/-!
# Command lines and the configuration

The grammar has every command line that is accepted: an argument that the machine takes is a path or
one of the words of the grammar, and right after an option that needs a path it takes nothing else.
So a command line is accepted just if there is a way to read it whose items are, and it says what
they say, whichever way that is.

The configuration that is loaded for it is the one of the file with its words on downloading and
installing. Nothing else differs, and no check looks at these two, so what is acceptable stays so.

## Main definitions

* `CommandLine.governed`: a configuration with the words of items.

## Main results

* `CommandLine.exists_reads`: what the machine accepts is in the grammar.
* `CommandLine.parse_of_reads`: what a command line amounts to.
* `CommandLine.parse_meaning`: what a command line says, and what becomes of the configuration.
-/

namespace Upkeep

namespace CommandLine

variable {items : List Item} {c : CommandLine} {o : Option CommandLine} {st : State}

/-! ### What is accepted is in the grammar -/

variable {st' : State}

/-- What comes of two steps has come of the first of them. -/
theorem exists_of_bind {α β : Type} {first : Except UsageError α}
    {next : α → Except UsageError β} {b : β} (h : first >>= next = .ok b) :
    ∃ a, first = .ok a ∧ next a = .ok b := by
  cases first with
  | error e => cases h
  | ok a => exact ⟨a, rfl, h⟩

/-- What is not settled yet is settled before an option takes effect. -/
theorem settles_of_takeFlag {f : Flag} (h : takeFlag st f = .ok st') :
    ∃ st₁, settlePending st = .ok st₁ := by
  obtain ⟨st₁, hsettle, -⟩ := exists_of_bind h
  exact ⟨st₁, hsettle⟩

theorem settles_of_takeConfig {path : Option String} (h : takeConfig st path = .ok st') :
    ∃ st₁, settlePending st = .ok st₁ := by
  obtain ⟨st₁, hsettle, -⟩ := exists_of_bind h
  exact ⟨st₁, hsettle⟩

/-- What a long option says that is accepted. -/
theorem exists_of_takeLong {name : String} {value : Option String}
    (h : takeLong st name value = .ok st') :
    (name = "config" ∨ value = none ∧ ∃ f, Flag.ofLong name = some f) ∧
      ∃ st₁, settlePending st = .ok st₁ := by
  rw [takeLong] at h
  split at h
  · rename_i hname
    exact ⟨Or.inl (by simpa using hname), settles_of_takeConfig h⟩
  · split at h
    · cases h
    · rename_i f hname
      split at h
      · cases h
      · exact ⟨Or.inr ⟨rfl, f, hname⟩, settles_of_takeFlag h⟩

/-- What follows the letters of short options. -/
inductive Ending : List Char → Prop
  /-- Nothing. -/
  | nil : Ending []
  /-- The option for the configuration file. -/
  | opening : Ending ['c']
  /-- The same with a path. -/
  | path {path : List Char} (hsome : path ≠ []) (hequals : path.head? ≠ some '=') :
    Ending ('c' :: path)
  /-- The same with a path after an equals sign. -/
  | equals (path : List Char) : Ending ('c' :: '=' :: path)

/-- What short options say that are accepted. -/
theorem exists_of_takeShort {cs : List Char} (h : takeShort st cs = .ok st') :
    (∃ letters flags rest, List.Forall₂ (fun c f => Flag.ofShort c = some f) letters flags ∧
      Ending rest ∧ cs = letters ++ rest) ∧ (cs ≠ [] → ∃ st₁, settlePending st = .ok st₁) := by
  induction cs generalizing st with
  | nil => exact ⟨⟨[], [], [], .nil, .nil, rfl⟩, fun hne => absurd rfl hne⟩
  | cons c cs ih =>
    by_cases hc : c = 'c'
    · subst hc
      cases cs with
      | nil =>
        rw [takeShort_config] at h
        exact ⟨⟨[], [], _, .nil, .opening, rfl⟩, fun _ => settles_of_takeConfig h⟩
      | cons first path =>
        by_cases hfirst : first = '='
        · subst hfirst
          rw [takeShort_equals] at h
          exact ⟨⟨[], [], _, .nil, .equals path, rfl⟩, fun _ => settles_of_takeConfig h⟩
        · have hequals : (first :: path).head? ≠ some '=' := by simpa using hfirst
          rw [takeShort_path (List.cons_ne_nil first path) hequals] at h
          exact ⟨⟨[], [], _, .nil, .path (List.cons_ne_nil first path) hequals, rfl⟩,
            fun _ => settles_of_takeConfig h⟩
    · cases hletter : Flag.ofShort c with
      | none =>
        unfold takeShort at h
        rw [if_neg (by simpa using hc), hletter] at h
        cases h
      | some f =>
        rw [takeShort_cons hletter] at h
        obtain ⟨st₁, hflag, hothers⟩ := exists_of_bind h
        obtain ⟨⟨letters, flags, rest, hletters, hrest, rfl⟩, -⟩ := ih hothers
        exact ⟨⟨c :: letters, f :: flags, rest, .cons hletter hletters, hrest, rfl⟩,
          fun _ => settles_of_takeFlag hflag⟩

/-- What looks like an option and is accepted is one, or several of them. -/
theorem exists_of_take {arg : String} (hoption : ¬Plain arg) (hend : arg ≠ "--")
    (hended : st.optionsEnded = false) (h : take st arg = .ok st') :
    ((∃ items, Word arg items) ∨ ∃ items, Opening arg items) ∧
      ∃ st₁, settlePending st = .ok st₁ := by
  obtain ⟨c, cs, harg⟩ : ∃ c cs, arg.toList = '-' :: c :: cs := by
    simpa [Plain] using hoption
  by_cases hc : c = '-'
  · subst hc
    have hname : arg = "--" ++ String.ofList cs := by
      rw [← String.toList_inj, harg]
      simp
    have hsome : (String.ofList cs).toList ≠ [] := by
      intro hnil
      rw [String.toList_eq_nil_iff.mp hnil] at hname
      exact hend hname
    rw [hname] at h ⊢
    rcases hcut : Text.cut '=' (String.ofList cs).toList with _ | ⟨name, value⟩
    · rw [take_long hsome hended hcut] at h
      obtain ⟨hconfig | ⟨-, f, hflag⟩, hsettles⟩ := exists_of_takeLong h
      · rw [hconfig]
        exact ⟨Or.inr ⟨[], .long⟩, hsettles⟩
      · exact ⟨Or.inl ⟨_, .long _ hflag⟩, hsettles⟩
    · rw [take_valued hended hcut] at h
      obtain ⟨hconfig | ⟨hnone, -⟩, hsettles⟩ := exists_of_takeLong h
      · refine ⟨Or.inl ⟨[.config (String.ofList value)], ?_⟩, hsettles⟩
        have hword : "--" ++ String.ofList cs = "--config=" ++ String.ofList value := by
          have hlist := Text.eq_append_of_cut hcut
          rw [String.toList_ofList] at hlist
          rw [← String.toList_inj, String.toList_ofList] at hconfig
          simp [← String.toList_inj, hlist, hconfig]
        rw [hword]
        exact .longPath _
      · cases hnone
  · have hletters : arg = "-" ++ String.ofList (c :: cs) := by
      rw [← String.toList_inj, harg]
      simp
    have hne : String.ofList (c :: cs) ≠ "" := by simp
    rw [hletters, take_short hne (by simpa using hc) hended, String.toList_ofList] at h
    obtain ⟨⟨letters, flags, rest, hflags, hrest, heq⟩, hsettles⟩ := exists_of_takeShort h
    refine ⟨?_, hsettles (List.cons_ne_nil c cs)⟩
    have hflags' : Letters (String.ofList letters) flags := by
      rwa [Letters, String.toList_ofList]
    rw [hletters, heq]
    cases hrest with
    | nil =>
      rw [List.append_nil] at heq ⊢
      exact Or.inl ⟨_, .short _ (heq ▸ hne) hflags'⟩
    | opening =>
      have hword : "-" ++ String.ofList (letters ++ ['c']) =
          "-" ++ String.ofList letters ++ "c" := by
        simp [← String.toList_inj]
      rw [hword]
      exact Or.inr ⟨_, .short _ hflags'⟩
    | @path path hsome hequals =>
      have hword : "-" ++ String.ofList (letters ++ 'c' :: path) =
          "-" ++ String.ofList letters ++ "c" ++ String.ofList path := by
        simp [← String.toList_inj]
      rw [hword]
      exact Or.inl ⟨_, .shortPath hflags' (by simpa using hsome) (by simpa using hequals)⟩
    | equals path =>
      have hword : "-" ++ String.ofList (letters ++ 'c' :: '=' :: path) =
          "-" ++ String.ofList letters ++ "c=" ++ String.ofList path := by
        simp [← String.toList_inj]
      rw [hword]
      exact Or.inl ⟨_, .shortEquals hflags' (String.ofList path)⟩

/-- Nothing is settled while a path is missing. -/
theorem settlePending_awaits {target : Target} (h : st.pending = some (target, none)) :
    settlePending st = .error .invalidValue := by
  rw [settlePending, h]
  rfl

/-- After `--` a missing path is not made up for. -/
theorem outcome_ended (h : Awaits st o) (args : List String) :
    outcome (args.foldlM take { st with optionsEnded := true }) = none := by
  have hsettle : settlePending { st with optionsEnded := true } = .error .invalidValue :=
    settlePending_awaits h.pending
  cases args with
  | nil => simp [outcome, pure, Except.pure, Except.toOption, State.settled?, hsettle]
  | cons path args =>
    have htake : ∃ e, take { st with optionsEnded := true } path = .error e := by
      rw [take, if_pos rfl, takePlain]
      split
      · exact ⟨_, rfl⟩
      · exact ⟨_, by rw [hsettle]; rfl⟩
    obtain ⟨e, htake⟩ := htake
    rw [List.foldlM_cons, htake]
    rfl

/-- **What the machine accepts is in the grammar**: right after an option that needs a path it
accepts a path, and what the grammar wants after that. -/
theorem exists_reads {args : List String} :
    (∀ st o, Holds false st o → outcome (args.foldlM take st) ≠ none → ∃ items, Reads args items) ∧
      ∀ st o, Awaits st o → outcome (args.foldlM take st) ≠ none →
        ∃ path rest items, args = path :: rest ∧ Plain path ∧ Reads rest items := by
  induction args with
  | nil =>
    refine ⟨fun _ _ _ _ => ⟨[], .nil⟩, fun st o h hsome => absurd ?_ hsome⟩
    simp [outcome, pure, Except.pure, Except.toOption, State.settled?,
      settlePending_awaits h.pending]
  | cons arg args ih =>
    obtain ⟨ihholds, ihawaits⟩ := ih
    -- the argument itself is accepted, whatever state it is taken in
    have hfirst : ∀ st, outcome ((arg :: args).foldlM take st) ≠ none → ∃ st',
        take st arg = .ok st' ∧ outcome (args.foldlM take st') ≠ none := by
      intro st hsome
      rw [List.foldlM_cons] at hsome
      cases htake : take st arg with
      | error e =>
        rw [htake] at hsome
        exact absurd rfl hsome
      | ok st' =>
        rw [htake] at hsome
        exact ⟨st', rfl, hsome⟩
    refine ⟨fun st o h hsome => ?_, fun st o h hsome => ?_⟩
    · obtain ⟨st', htake, hrest⟩ := hfirst st hsome
      by_cases hplain : Plain arg
      · have hreaches := reaches_positional h arg
        rw [← take_of_plain hplain h.ended h.complete, htake] at hreaches
        obtain ⟨items, hitems⟩ := ihholds st' _ hreaches hrest
        exact ⟨_, .plain hplain hitems⟩
      · by_cases hend : arg = "--"
        · subst hend
          exact ⟨_, .rest args⟩
        · obtain ⟨⟨items, hword⟩ | ⟨items, hword⟩, -⟩ := exists_of_take hplain hend h.ended htake
          · have hreaches := reaches_word hword h
            rw [htake] at hreaches
            obtain ⟨items', hitems'⟩ := ihholds st' _ hreaches hrest
            exact ⟨_, .word hword hitems'⟩
          · have hreaches := reaches_opening_word hword h
            rw [htake] at hreaches
            obtain ⟨path, rest, items', rfl, hpath, hitems'⟩ := ihawaits st' _ hreaches hrest
            exact ⟨_, .opening hword hpath hitems'⟩
    · obtain ⟨st', htake, hrest⟩ := hfirst st hsome
      by_cases hplain : Plain arg
      · have hreaches := reaches_awaited hplain h
        rw [htake] at hreaches
        obtain ⟨items, hitems⟩ := ihholds st' _ hreaches hrest
        exact ⟨arg, args, items, rfl, hplain, hitems⟩
      · by_cases hend : arg = "--"
        · have hended : take st "--" = .ok { st with optionsEnded := true } := by
            rw [take, h.ended, if_neg Bool.false_ne_true]
            rfl
          rw [hend, hended] at htake
          cases htake
          exact absurd (outcome_ended h args) hrest
        · obtain ⟨-, st₁, hsettle⟩ := exists_of_take hplain hend h.ended htake
          rw [settlePending_awaits h.pending] at hsettle
          cases hsettle

/-! ### Command lines -/

theorem parse_eq_ok_iff {args : List String} :
    parse args = .ok c ↔ outcome (args.foldlM take {}) = some c ∧ conflicts c = false := by
  rw [parse, outcome]
  cases args.foldlM take {} with
  | error e => simp [Except.toOption, bind, Except.bind]
  | ok st =>
    rcases st.settlePending_cases with ⟨e, hsettle, hnone⟩ | ⟨given, hsettle, hsome⟩
    · simp [Except.toOption, bind, Except.bind, hsettle, hnone]
    · cases hconflicts : conflicts given
      · simp only [bind, Except.bind, hsettle, hconflicts, Except.toOption, Option.bind_some, hsome]
        constructor
        · intro h
          cases h
          exact ⟨rfl, hconflicts⟩
        · rintro ⟨h, -⟩
          cases h
          rfl
      · simp only [bind, Except.bind, hsettle, hconflicts, Except.toOption, Option.bind_some, hsome]
        refine iff_of_false (by simp) ?_
        rintro ⟨h, hnone⟩
        cases h
        rw [hconflicts] at hnone
        cases hnone

theorem holds_start : Holds false {} (some (amount [])) :=
  ⟨rfl, rfl, by simp, fun hseen => by cases hseen⟩

/-- **What a command line amounts to** is what its items do, if they are accepted. -/
theorem parse_of_reads {args : List String} (h : Reads args items) :
    parse args = .ok c ↔ Accepted items ∧ c = amount items := by
  rw [parse_eq_ok_iff, outcome_reads h holds_start, Option.bind_some, process_eq_some_iff]
  simp only [List.nil_append]
  constructor
  · rintro ⟨⟨hfits, rfl⟩, hconflicts⟩
    obtain ⟨honeKind, hquiet⟩ := (conflicts_amount items).mp hconflicts
    exact ⟨⟨hfits, honeKind, hquiet⟩, rfl⟩
  · rintro ⟨haccepted, rfl⟩
    exact ⟨⟨haccepted.fits, rfl⟩,
      (conflicts_amount items).mpr ⟨haccepted.oneKind, haccepted.quiet⟩⟩

/-- **Every command line that is accepted is in the grammar.** -/
theorem exists_reads_of_parse {args : List String} (h : parse args = .ok c) :
    ∃ items, Reads args items :=
  exists_reads.1 _ _ holds_start (by rw [(parse_eq_ok_iff.mp h).1]; simp)

/-- A configuration with the words of items on installing and downloading. -/
def governed (items : List Item) (config : Config) : Config :=
  { config with commands := { config.commands with
      downloadUpdates := match last? Item.download? items with
        | some true => .yes
        | some false => .no
        | none => config.commands.downloadUpdates
      applyUpdates := (last? Item.install? items).getD config.commands.applyUpdates } }

theorem Says.override_eq (h : Says items c) (config : Config) :
    c.overrideConfig config = governed items config := by
  rw [overrideConfig, h.download, h.install]
  rfl

/-- The words of a command line do not make a configuration unacceptable. -/
theorem check_governed (items : List Item) (config : Config) :
    (governed items config).check = config.check := rfl

end CommandLine

theorem ConfigFile.check_of_load {fs : Files} {path : String} {config : Config}
    (h : load fs path = .ok config) : config.check = none := by
  unfold load at h
  split at h
  · split at h
    · cases h
    · split at h
      · cases h
      · split at h
        · cases h
        · rename_i hcheck
          cases h
          exact hcheck
  · cases h
    rfl

/-- **What a command line says, and what becomes of the configuration.** Every command line that is
accepted is in the grammar, and it is what its items say: of an option and its opposite the last one
stands, and never both; the level of messages is counted; there is one path at most. A configuration
that is loaded for it is the one of the file, with its words on downloading and installing and no
other difference, and is as acceptable as that. -/
theorem CommandLine.parse_meaning (args : List String) :
    ((∃ c, parse args = .ok c) ↔ ∃ items, Reads args items ∧ Accepted items) ∧
    ∀ c, parse args = .ok c → (∃ items, Reads args items) ∧ ∀ items, Reads args items →
      Says items c ∧
      (∀ config, (c.overrideConfig config).check = config.check) ∧
      ∀ fs,
        (∀ e, ConfigFile.load fs c.configPath = .error e → ConfigFile.loadFor fs c = .error e) ∧
        ∀ config, ConfigFile.load fs c.configPath = .ok config →
          config.check = none ∧ ConfigFile.loadFor fs c = .ok (governed items config) ∧
            (governed items config).check = none := by
  refine ⟨⟨?_, ?_⟩, fun c hparse => ⟨exists_reads_of_parse hparse, fun items hreads => ?_⟩⟩
  · rintro ⟨c, hparse⟩
    obtain ⟨items, hreads⟩ := exists_reads_of_parse hparse
    exact ⟨items, hreads, ((parse_of_reads hreads).mp hparse).1⟩
  · rintro ⟨items, hreads, haccepted⟩
    exact ⟨_, (parse_of_reads hreads).mpr ⟨haccepted, rfl⟩⟩
  · obtain ⟨haccepted, rfl⟩ := (parse_of_reads hreads).mp hparse
    have hmeant := haccepted.meant
    refine ⟨hmeant, fun config => ?_, fun fs => ⟨fun e hload => ?_, fun config hload => ?_⟩⟩
    · rw [hmeant.override_eq, check_governed]
    · rw [ConfigFile.loadFor, hload]
      rfl
    · have hcheck := ConfigFile.check_of_load hload
      refine ⟨hcheck, ?_, (check_governed items config).trans hcheck⟩
      rw [ConfigFile.loadFor, hload, ← hmeant.override_eq]
      rfl

/-- Both words on installing, more messages asked for in three ways, and a path in a cluster. -/
theorem CommandLine.parse_meaning_cluster :
    let items : List Item := [.flag .verbose, .flag .verbose, .flag .installUpdates,
      .flag .noInstallUpdates, .flag .verbose, .flag .verbose, .config "/etc/a.toml",
      .flag .downloadUpdates]
    let c : CommandLine :=
      { config := some "/etc/a.toml", noInstallUpdates := true, downloadUpdates := true,
        verbose := 4 }
    parse ["-vv", "--installupdates", "--no-installupdates", "--verbose", "-vc", "/etc/a.toml",
        "--downloadupdates"] = .ok c ∧
      Says items c ∧ c.installOverride = some false ∧ c.configPath = "/etc/a.toml" ∧
      ConfigFile.loadFor .empty c = .ok (governed items {}) ∧ (governed items {}).check = none := by
  intro items c
  have hparse : parse ["-vv", "--installupdates", "--no-installupdates", "--verbose", "-vc",
      "/etc/a.toml", "--downloadupdates"] = .ok c := by
    decide +kernel
  have hreads : Reads ["-vv", "--installupdates", "--no-installupdates", "--verbose", "-vc",
      "/etc/a.toml", "--downloadupdates"] items :=
    .word (.short "vv" (by decide) (.cons rfl (.cons rfl .nil))) <|
    .word (.long "installupdates" rfl) <|
    .word (.long "no-installupdates" rfl) <|
    .word (.long "verbose" rfl) <|
    .opening (.short "v" (.cons rfl .nil)) (plain_of_head? (by decide)) <|
    .word (.long "downloadupdates" rfl) .nil
  have hload : ConfigFile.load .empty c.configPath = .ok {} := by decide +kernel
  obtain ⟨-, hmeant⟩ := parse_meaning ["-vv", "--installupdates", "--no-installupdates",
    "--verbose", "-vc", "/etc/a.toml", "--downloadupdates"]
  obtain ⟨hall, -, hgoverned⟩ := (hmeant c hparse).2 items hreads
  obtain ⟨-, hloaded, hcheck⟩ := (hgoverned .empty).2 {} hload
  exact ⟨hparse, hall, hall.install, hall.path.1 "/etc/a.toml" (by decide), hloaded, hcheck⟩

end Upkeep
