import Upkeep.Emitters.Emitter
import Upkeep.Proofs.CommandLine.Reading
import Upkeep.Proofs.Shell.Tokens
import Upkeep.Proofs.Template

/-!
# Command lines with values

The command line for a report is a text in which placeholders stand for parts of the report. The
shell divides the text with the values; the user wrote the text without them. Here the two are
compared: where every placeholder is a word by itself, the tokens of the one are the tokens of the
other with the values in place of the placeholders. So nothing in a value can begin, end, join or
divide a word or a command.

Both texts are read side by side. Outside of placeholders they are the same, and so is the state
of the reading. At a placeholder the reading is between two words, and it is there again after the
values, and after the placeholder, since what follows sets words apart.

A word that only looks like a placeholder has to be kept as it is, and the values must not be
taken for placeholders. Both hold since a word is known by its source: a word that begins where no
placeholder begins has another source than a placeholder (`Shell.Settled`).

## Main definitions

* `Shell.StandsAlone`: every placeholder of a text is a word by itself.
* `Shell.replaced`: a token with values in place of a placeholder.

## Main results

* `Shell.tokensFrom_fill`: reading with values and without them, side by side.
* `Shell.line_words`: the words of the command lines for a report.
-/

namespace Upkeep

namespace Shell

open Template (placeholder)

variable {σ : Type}

/-! ### Formats -/

/-- Every placeholder of a text that is read from a state on stands where a word may begin, and
what follows it is apart from it. -/
def Standing (r : Reader σ) (keys : List String) : State σ → List Char → Prop
  | _, [] => True
  | S, c :: text =>
    (∀ key ∈ keys, placeholder key <+: c :: text →
      S.isFree = true ∧ isApart ((c :: text).drop (placeholder key).length) = true) ∧
    Standing r keys (step r S c).2 text

instance Standing.decide (r : Reader σ) (keys : List String) :
    ∀ (S : State σ) (text : List Char), Decidable (Standing r keys S text)
  | _, [] => isTrue trivial
  | S, c :: text =>
    have := Standing.decide r keys (step r S c).2 text
    inferInstanceAs (Decidable (_ ∧ _))

/-- What placeholders stand for: each for some values, which become a word each. -/
abbrev Values := List (String × List String)

/-- The names of the placeholders. -/
def Values.keys (values : Values) : List String := values.map Prod.fst

/-- The texts of the placeholders. -/
def Values.written (values : Values) : List (String × String) :=
  values.map fun entry => (entry.1, String.intercalate " " (entry.2.map ShellWord.quote))

/-- What becomes of a token: a word that is a placeholder gives way to its values. -/
def replaced (values : Values) : Token → List Token
  | .word w =>
    match values.find? fun entry => placeholder entry.1 == w.source with
    | some (_, words) => words.map fun value => .word (.verbatim value)
    | none => [.word w]
  | t => [t]

/-- Every placeholder of a format is a word by itself. A here-document is another form of
quoting: neither in one nor as its delimiter is a placeholder a word by itself. -/
def StandsAlone (r : Reader σ) (values : Values) (format : String) : Prop :=
  Standing r values.keys State.start format.toList

instance (r : Reader σ) (values : Values) (format : String) :
    Decidable (StandsAlone r values format) :=
  Standing.decide r values.keys State.start format.toList

variable {r : Reader σ} {S : State σ} {keys : List String} {values : Values} {text : List Char}

theorem Standing.of_run {front : List Char} (h : Standing r keys S (front ++ text)) :
    Standing r keys (run r S front).2 text := by
  induction front generalizing S with
  | nil => exact h
  | cons c front ih => exact ih h.2

/-- A word that is apart from what follows can be left out. -/
theorem Standing.of_word {w : Word} (hfree : S.isFree = true) (hapart : isApart text = true)
    (h : Standing r keys (S.enter (.word w (.plain .nothing))) text) :
    Standing r keys S text := by
  cases text with
  | nil => trivial
  | cons c text =>
    refine ⟨fun key hkey hstart => ?_, ?_⟩
    · -- no placeholder begins with what sets words apart
      obtain ⟨after, hafter⟩ := hstart
      obtain rfl : '{' = c := (List.cons.inj hafter).1
      cases hapart
    · have hnext := h.2
      rwa [step_separator hfree w hapart] at hnext

/-! ### Words that are no placeholders -/

/-- The word that the reading is in does not become a placeholder. -/
def Settled (keys : List String) (S : State σ) (text : List Char) : Prop :=
  S.raw ≠ [] → ∀ key ∈ keys, ¬placeholder key <+: S.raw ++ text

theorem Settled.of_isFree (hfree : S.isFree = true) (keys : List String) (text : List Char) :
    Settled keys S text := by
  intro hraw
  rw [State.raw, (State.isFree_iff.mp hfree).1] at hraw
  exact absurd rfl hraw

theorem Settled.source_ne {key : String} (h : Settled keys S text) (hkey : key ∈ keys) :
    S.raw ≠ placeholder key := by
  intro hraw
  have hne : S.raw ≠ [] := hraw ▸ List.cons_ne_nil _ _
  exact h hne key hkey (hraw ▸ List.prefix_append _ _)

/-- Where no placeholder begins, a word that begins there is none. -/
theorem Settled.step {c : Char} (h : Settled keys S (c :: text))
    (hnone : ∀ key ∈ keys, ¬placeholder key <+: c :: text) :
    Settled keys (step r S c).2 text := by
  intro hne key hkey hstart
  rcases (step_source r S c).2 with hraw | hraw | hraw
  · rw [hraw, List.append_assoc] at hstart
    by_cases hempty : S.raw = []
    · rw [hempty] at hstart
      exact hnone key hkey hstart
    · exact h hempty key hkey hstart
  · rw [hraw] at hstart
    exact hnone key hkey hstart
  · exact hne hraw

theorem replaced_of_ne {w : Word} (h : ∀ key ∈ values.keys, w.source ≠ placeholder key) :
    replaced values (.word w) = [.word w] := by
  have hfind : values.find? (fun entry => placeholder entry.1 == w.source) = none := by
    rw [List.find?_eq_none]
    intro entry hentry hkey
    exact h entry.1 (List.mem_map_of_mem hentry) (eq_of_beq hkey).symm
  rw [replaced, hfind]

theorem flatMap_replaced {found : List Token}
    (h : ∀ w, .word w ∈ found → ∀ key ∈ values.keys, w.source ≠ placeholder key) :
    found.flatMap (replaced values) = found := by
  induction found with
  | nil => rfl
  | cons t found ih =>
    have hsame : replaced values t = [t] := by
      cases t with
      | word w => exact replaced_of_ne (h w List.mem_cons_self)
      | number digits => rfl
      | operator text => rfl
      | document text => rfl
    rw [List.flatMap_cons, hsame, ih fun w hw => h w (List.mem_cons_of_mem t hw),
      List.singleton_append]

/-! ### Values in place of placeholders -/

/-- Whether a name consists of characters without a meaning, and ends no placeholder. -/
def isName (key : String) : Bool := key.toList.all fun c => isPlain c && c != '}'

theorem isName_iff {key : String} :
    isName key = true ↔ (∀ c ∈ key.toList, isPlain c = true) ∧ '}' ∉ key.toList := by
  rw [isName, List.all_eq_true]
  constructor
  · intro h
    exact ⟨fun c hc => (Bool.and_eq_true_iff.mp (h c hc)).1, fun hmem =>
      absurd (Bool.and_eq_true_iff.mp (h '}' hmem)).2 (by decide)⟩
  · rintro ⟨hplain, hend⟩ c hc
    exact Bool.and_eq_true_iff.mpr ⟨hplain c hc, bne_iff_ne.mpr fun h => hend (h ▸ hc)⟩

/-- A placeholder is read as a word. -/
theorem run_placeholder (r : Reader σ) (hfree : S.isFree = true) {key : String}
    (hkey : ∀ c ∈ key.toList, isPlain c = true) :
    run r S (placeholder key) =
      ([], S.enter (.word (.bare (placeholder key)) (.plain .nothing))) := by
  refine run_bare r hfree rfl (by decide) fun c hc => ?_
  rcases List.mem_append.mp hc with hc | hc
  · exact hkey c hc
  · cases List.mem_singleton.mp hc
    rfl

/-- Values are read as a word each. -/
theorem tokensFrom_values (hfree : S.isFree = true) (hapart : isApart text = true)
    (words : List String) :
    tokensFrom r S ((String.intercalate " " (words.map ShellWord.quote)).toList ++ text) =
      (tokensFrom r S text).map (words.map (fun value => .word (.verbatim value)) ++ ·) := by
  induction words with
  | nil => exact Option.map_id'.symm
  | cons value words ih =>
    cases words with
    | nil => exact tokensFrom_value hfree value hapart
    | cons value' words =>
      have hsource : String.intercalate " " ((value :: value' :: words).map ShellWord.quote) =
          ShellWord.quote value ++ " " ++
            String.intercalate " " ((value' :: words).map ShellWord.quote) :=
        String.intercalate_cons_cons
      have hblank : run r S " ".toList = ([], S) := run_blank r hfree
      rw [hsource, String.toList_append, String.toList_append, List.append_assoc, List.append_assoc,
        tokensFrom_value hfree value rfl, tokensFrom_of_run hblank, ih, Option.map_map]
      rfl

/-- The values of a placeholder are what is written for it and what it gives way to. -/
theorem exists_words {key : String} (hkey : key ∈ values.keys) :
    ∃ words : List String,
      Template.valueOf values.written key = String.intercalate " " (words.map ShellWord.quote) ∧
      replaced values (.word (.bare (placeholder key))) =
        words.map fun value => .word (.verbatim value) := by
  obtain ⟨⟨key', words'⟩, hmem, rfl⟩ := List.mem_map.mp hkey
  have hsome : (values.find? fun entry => entry.1 == key').isSome :=
    List.find?_isSome.mpr ⟨_, hmem, beq_self_eq_true key'⟩
  obtain ⟨⟨key, words⟩, hfind⟩ := Option.isSome_iff_exists.mp hsome
  refine ⟨words, ?_, ?_⟩
  · have hwritten : values.written.find? (fun entry => entry.1 == key') =
        (values.find? fun entry => entry.1 == key').map fun entry =>
          (entry.1, String.intercalate " " (entry.2.map ShellWord.quote)) := List.find?_map
    rw [Template.valueOf_eq, hwritten, hfind]
    rfl
  · have hsource (key : String) : (placeholder key == (Word.bare (placeholder key')).source) =
        (key == key') := by
      rw [Bool.eq_iff_iff, beq_iff_eq, beq_iff_eq]
      exact Template.placeholder_inj
    simp only [replaced, hsource, hfind]

theorem isApart_fill (hends : ∀ key ∈ keys, '}' ∉ key.toList) (written : List (String × String))
    (fuel : Nat) (hapart : isApart text = true) :
    isApart ((Template.piecesFrom keys fuel text).flatMap (Template.Piece.text written)) =
      true := by
  cases fuel with
  | zero => rfl
  | succ fuel =>
    cases text with
    | nil => rfl
    | cons c text =>
      rcases Template.piecesFrom_cons hends fuel c text with
        ⟨key, hkey, after, htext, hpieces⟩ | ⟨hnone, hpieces⟩
      · obtain rfl : c = '{' := (List.cons.inj htext).1
        cases hapart
      · rw [hpieces]
        exact hapart

/-- The last word of a text is no placeholder that has not been seen. -/
theorem tokensFrom_nil_replaced (r : Reader σ) (hsettled : Settled values.keys S []) :
    tokensFrom r S [] = (tokensFrom r S []).map (·.flatMap (replaced values)) := by
  have hnil : tokensFrom r S [] = finish S := Option.map_id'
  rw [hnil]
  cases hfinish : finish S with
  | none => rfl
  | some found =>
    have hsame : found.flatMap (replaced values) = found :=
      flatMap_replaced fun w hw key hkey => finish_source hfinish hw ▸ hsettled.source_ne hkey
    rw [Option.map_some, hsame]

/-- **Reading with values and without them.** The tokens of a text with values are the tokens of
the text, with the values in place of the placeholders. -/
theorem tokensFrom_fill (hnamed : ∀ key ∈ values.keys, isName key = true) {fuel : Nat}
    (hfuel : text.length ≤ fuel) (hstanding : Standing r values.keys S text)
    (hsettled : Settled values.keys S text) :
    tokensFrom r S
        ((Template.piecesFrom values.keys fuel text).flatMap
          (Template.Piece.text values.written)) =
      (tokensFrom r S text).map (·.flatMap (replaced values)) := by
  have hends : ∀ key ∈ values.keys, '}' ∉ key.toList :=
    fun key hkey => (isName_iff.mp (hnamed key hkey)).2
  induction fuel generalizing S text with
  | zero =>
    obtain rfl := List.eq_nil_of_length_eq_zero (Nat.le_zero.mp hfuel)
    exact tokensFrom_nil_replaced r hsettled
  | succ fuel ih =>
    cases text with
    | nil => exact tokensFrom_nil_replaced r hsettled
    | cons c text =>
      rcases Template.piecesFrom_cons hends fuel c text with
        ⟨key, hkey, after, htext, hpieces⟩ | ⟨hnone, hpieces⟩
      · -- the reading is free before the placeholder, and again after it and after its values
        obtain ⟨hfree, hdrop⟩ := hstanding.1 key hkey ⟨after, htext.symm⟩
        have hapart : isApart after = true := by rwa [htext, List.drop_left] at hdrop
        have hword := run_placeholder r hfree (isName_iff.mp (hnamed key hkey)).1
        have hafter : Standing r values.keys S after := by
          rw [htext] at hstanding
          have hrun := hstanding.of_run
          rw [hword] at hrun
          exact hrun.of_word hfree hapart
        have hlength : after.length ≤ fuel := by
          have hlengths := congrArg List.length htext
          simp only [List.length_cons, List.length_append, Template.placeholder] at hlengths hfuel
          omega
        obtain ⟨words, hvalue, hreplaced⟩ := exists_words hkey
        rw [hpieces, List.flatMap_cons, Template.Piece.text, hvalue,
          tokensFrom_values hfree (isApart_fill hends _ fuel hapart),
          ih hlength hafter (.of_isFree hfree _ _), htext, tokensFrom_of_run hword,
          tokensFrom_word hfree _ hapart, Option.map_map, Option.map_map]
        simp only [Function.comp_def, List.flatMap_cons, hreplaced]
      · -- the same character is read, and no word that ends is a placeholder
        have hsame : (step r S c).1.flatMap (replaced values) = (step r S c).1 :=
          flatMap_replaced fun w hw key hkey =>
            (step_source r S c).1 w hw ▸ hsettled.source_ne hkey
        rw [hpieces, List.flatMap_cons, Template.Piece.text, List.singleton_append,
          tokensFrom_cons, ih (Nat.le_of_succ_le_succ hfuel) hstanding.2 (hsettled.step hnone),
          tokensFrom_cons, Option.map_map, Option.map_map]
        simp only [Function.comp_def, List.flatMap_append, hsame]

/-- The words of a format with values. -/
theorem tokens_fill (hnamed : ∀ key ∈ values.keys, isName key = true) {format : String}
    (h : StandsAlone r values format) :
    tokens r (Template.fill format values.written) =
      (tokens r format).map (·.flatMap (replaced values)) := by
  have hkeys : values.written.map Prod.fst = values.keys := List.map_map
  rw [tokens, Template.fill_eq, hkeys, String.toList_ofList]
  exact tokensFrom_fill hnamed (Nat.le_refl _) h (.of_isFree rfl _ _)

end Shell

/-! ### Command lines for reports -/

open Shell

/-- What the placeholders of the command line stand for. -/
def CommandConfig.values (report : Report) : Values :=
  [("title", [report.title]), ("body", [report.body])]

/-- What the placeholders of the command line stand for: `email_to` for every recipient. -/
def CommandEmailConfig.values (c : CommandEmailConfig) (report : Report) : Values :=
  [("subject", [report.title]), ("body", [report.body]), ("email_from", [c.emailFrom]),
    ("email_to", c.emailTo)]

theorem CommandConfig.isName_of_mem (report : Report) :
    ∀ key ∈ (values report).keys, isName key = true := by
  have hall : ["title", "body"].all isName = true := by decide +kernel
  exact List.all_eq_true.mp hall

theorem CommandEmailConfig.isName_of_mem (c : CommandEmailConfig) (report : Report) :
    ∀ key ∈ (c.values report).keys, isName key = true := by
  have hall : ["subject", "body", "email_from", "email_to"].all isName = true := by decide +kernel
  exact List.all_eq_true.mp hall

/-! ### Recipients -/

theorem Emitter.kind_of_ofKind {config : Config} {kind : EmitterKind} {emitter : Emitter}
    (h : ofKind config kind = .ok emitter) : emitter.kind = kind := by
  cases kind with
  | email =>
    cases hemail : Email.ofConfig config.email with
    | error e =>
      rw [ofKind, hemail] at h
      cases h
    | ok email =>
      rw [ofKind, hemail] at h
      cases h
      rfl
  | _ =>
    cases h
    rfl

/-- Every emitter is that of a configured kind. -/
theorem Emitter.ofKind_of_mem {config : Config} {kinds : List EmitterKind}
    {emitters : List Emitter} (h : ofKinds config kinds = .ok emitters) {emitter : Emitter}
    (hmem : emitter ∈ emitters) : ∃ kind ∈ kinds, ofKind config kind = .ok emitter := by
  induction kinds generalizing emitters with
  | nil =>
    cases h
    cases hmem
  | cons kind kinds ih =>
    rw [ofKinds] at h
    split at h
    · cases h
    · rename_i first hfirst
      cases hrest : ofKinds config kinds with
      | error e =>
        rw [hrest] at h
        cases h
      | ok rest =>
        rw [hrest] at h
        cases h
        rcases List.mem_cons.mp hmem with rfl | hlater
        · exact ⟨kind, List.mem_cons_self, hfirst⟩
        · obtain ⟨kind', hkind, hemitter⟩ := ih hrest hlater
          exact ⟨kind', List.mem_cons_of_mem kind hkind, hemitter⟩

theorem Config.recipients_of_check {config : Config} (h : config.check = none)
    (hemits : .commandEmail ∈ config.emitters.emitVia) : config.commandEmail.emailTo ≠ [] := by
  intro hempty
  have hlast : (config.emitters.emitVia.contains .commandEmail &&
      config.commandEmail.emailTo.isEmpty) = true := by
    rw [hempty, List.contains_iff_mem.mpr hemits]
    rfl
  unfold check at h
  rw [if_pos hlast] at h
  iterate 5
    split at h
    · cases h
  cases h

/-- The command that mails the report has somebody to mail it to. -/
theorem Emitter.recipients_ne_nil {fs : Files} {commandLine : CommandLine} {config : Config}
    (hload : ConfigFile.loadFor fs commandLine = .ok config) {emitters : List Emitter}
    (hemitters : ofConfig config = .ok emitters) {c : CommandEmailConfig}
    (hc : .mailCommand c ∈ emitters) : c.emailTo ≠ [] := by
  obtain ⟨kind, hkind, hofKind⟩ := ofKind_of_mem hemitters hc
  obtain rfl : EmitterKind.commandEmail = kind := kind_of_ofKind hofKind
  cases hofKind
  cases hfile : ConfigFile.load fs commandLine.configPath with
  | error e =>
    rw [ConfigFile.loadFor, hfile] at hload
    cases hload
  | ok stored =>
    rw [ConfigFile.loadFor, hfile] at hload
    cases hload
    have hne : stored.commandEmail.emailTo ≠ [] :=
      Config.recipients_of_check (ConfigFile.check_of_load hfile) hkind
    exact hne

/-! ### The words of a command line -/

/-- **A report adds words and nothing else.** A quoted value is one word, whatever it is. In a
format whose placeholders are words by themselves, every placeholder becomes the words of its
values and all other tokens stay as they are, whatever the report, the sender and the recipients
say. And where a report is mailed there are recipients. -/
theorem Shell.line_words {σ : Type} (r : Reader σ) :
    (∀ value, tokens r (ShellWord.quote value) = some [.word (.verbatim value)]) ∧
    (∀ (c : CommandConfig) (report : Report),
      StandsAlone r (CommandConfig.values report) c.commandFormat →
      tokens r (c.line report) = (tokens r c.commandFormat).map
        (·.flatMap (replaced (CommandConfig.values report)))) ∧
    (∀ (c : CommandEmailConfig) (report : Report),
      StandsAlone r (c.values report) c.commandFormat →
      tokens r (c.line report) = (tokens r c.commandFormat).map
        (·.flatMap (replaced (c.values report)))) ∧
    (∀ (fs : Files) (commandLine : CommandLine) (config : Config) (emitters : List Emitter)
      (c : CommandEmailConfig), ConfigFile.loadFor fs commandLine = .ok config →
      Emitter.ofConfig config = .ok emitters → .mailCommand c ∈ emitters → c.emailTo ≠ []) := by
  refine ⟨fun value => ?_, fun c report h => ?_, fun c report h => ?_,
    fun fs commandLine config emitters c hload hemitters hc =>
      Emitter.recipients_ne_nil hload hemitters hc⟩
  · have hfree : (State.start : State σ).isFree = true := rfl
    have hend : isApart [] = true := rfl
    have hvalue := tokensFrom_value (r := r) hfree value hend
    rw [List.append_nil] at hvalue
    exact hvalue
  · exact tokens_fill (CommandConfig.isName_of_mem report) h
  · exact tokens_fill (c.isName_of_mem report) h

/-- Mail to two recipients, one of them with quotes and blanks in the address. -/
def Shell.mailing : Config :=
  { emitters := { emitVia := [.commandEmail] },
    commandEmail := { emailTo := ["ops@example.com", "\"The Admin's\" <root>"] } }

/-- A title that looks like a placeholder and a command, with recipients from a file. -/
theorem Shell.line_words_mailing :
    let r : Reader Unit := ⟨fun _ _ => none, fun _ => none, fun _ _ => none⟩
    let report : Report := ⟨"it's \x7bbody\x7d; reboot", "a\nb\n"⟩
    let log : CommandConfig :=
      { commandFormat := "tee -a 'my log' \x7btitle\x7d 2>err # \x7bx\x7d" }
    let fs := Files.empty.addFile ["c.toml"] ("[emitters]\nemit_via = ['command_email']\n" ++
      "[command_email]\nemail_to = ['ops@example.com', \"\\\"The Admin's\\\" <root>\"]\n").toUTF8
    StandsAlone r (CommandConfig.values report) log.commandFormat ∧
    StandsAlone r (mailing.commandEmail.values report) mailing.commandEmail.commandFormat ∧
    ConfigFile.loadFor fs { configFile := some "c.toml" } = .ok mailing ∧
    Emitter.ofConfig mailing = .ok [.mailCommand mailing.commandEmail] ∧
    tokens r (ShellWord.quote "") = some [.word ⟨['\'', '\''], []⟩] ∧
    tokens r (log.line report) = some [.word (.bare "tee".toList), .word (.bare "-a".toList),
      .word (.verbatim "my log"), .word (.verbatim "it's \x7bbody\x7d; reboot"),
      .number ['2'], .operator ['>'], .word (.bare "err".toList)] ∧
    tokens r (mailing.commandEmail.line report) = some [.word (.bare "mail".toList),
      .word (.bare "-Ssendwait".toList), .word (.bare "-s".toList),
      .word (.verbatim "it's \x7bbody\x7d; reboot"), .word (.bare "-r".toList),
      .word (.verbatim "root@localhost"), .word (.verbatim "ops@example.com"),
      .word (.verbatim "\"The Admin's\" <root>")] ∧
    mailing.commandEmail.emailTo ≠ [] := by
  intro r report log fs
  have hlog : StandsAlone r (CommandConfig.values report) log.commandFormat := by decide +kernel
  have hmail : StandsAlone r (mailing.commandEmail.values report)
      mailing.commandEmail.commandFormat := by decide +kernel
  have hload : ConfigFile.loadFor fs { configFile := some "c.toml" } = .ok mailing := by
    have hsome : (ConfigFile.loadFor fs { configFile := some "c.toml" }).toOption =
        some mailing := by decide +kernel
    cases hresult : ConfigFile.loadFor fs { configFile := some "c.toml" } with
    | error e =>
      rw [hresult] at hsome
      cases hsome
    | ok config =>
      rw [hresult] at hsome
      cases hsome
      rfl
  have hemitters : Emitter.ofConfig mailing = .ok [.mailCommand mailing.commandEmail] := rfl
  obtain ⟨hquote, hlogLine, hmailLine, hrecipients⟩ := line_words r
  refine ⟨hlog, hmail, hload, hemitters, hquote "", ?_, ?_,
    hrecipients fs _ mailing _ mailing.commandEmail hload hemitters List.mem_cons_self⟩
  · rw [hlogLine log report hlog]
    decide +kernel
  · rw [hmailLine mailing.commandEmail report hmail]
    decide +kernel

end Upkeep
