import Upkeep.Text.ShellWord

/-!
# Tokens of the shell

How the shell divides a command line into words and operators, by the rules of POSIX for token
recognition: what a character means depends on the quotes it stands in, a backslash takes the
character after it, a backslash before the end of a line goes away together with it, an operator
is as long as it can be, and comments are dropped. The body of a here-document is not divided; it
begins on the line after its operator.

Where an expansion such as a command substitution ends is decided by the rest of the shell's
grammar, and where a here-document ends by the quotes in its delimiter. Neither is described
here. Both are left to a `Reader`, which is told where such a part begins and reads it character
by character; what is proved holds for every reader.

A word keeps two things apart. Its source is the text it was written as, with all quotes. Its
letters are what is left when the quotes are gone, each with the kind of quotes it stood in, since
a letter that stood in none may still be a pattern, or be where the word is split.

## Main definitions

* `Shell.step`: what one character does.
* `Shell.tokens`: the tokens of a text, if all its quotes and expansions are closed.
* `Shell.Word.verbatim`: a word that is a value and nothing else.

## Main results

* `Shell.step_source`, `Shell.finish_source`: where the source of a word comes from.
* `Shell.tokensFrom_word`: a word that stands apart does not change how the rest is read.
* `Shell.tokensFrom_value`: a quoted value is one word, wherever a word may begin.
-/

namespace Upkeep.Shell

/-! ### Words and tokens -/

/-- The quotes that a letter stood in. -/
inductive Quoting where
  /-- None. -/
  | bare
  /-- Double quotes: the letter may be part of an expansion. -/
  | weak
  /-- Single quotes or a backslash: the letter stands for itself. -/
  | strong
  deriving DecidableEq, Repr

/-- A letter of a word. -/
structure Letter where
  /-- The character. -/
  char : Char
  /-- Its quotes. -/
  quoting : Quoting
  deriving DecidableEq, Repr

/-- A word. -/
structure Word where
  /-- How it was written. -/
  source : List Char
  /-- What it says. -/
  letters : List Letter
  deriving DecidableEq, Repr

/-- A token. -/
inductive Token where
  /-- A word. -/
  | word (w : Word)
  /-- The number of a file before a redirection. -/
  | number (digits : List Char)
  /-- An operator, or the end of a line. -/
  | operator (text : List Char)
  /-- The bodies of the here-documents of a line. -/
  | document (text : List Char)
  deriving DecidableEq, Repr

namespace Word

/-- No word yet. -/
def empty : Word := ⟨[], []⟩

/-- The word with one more character of source, which adds some letters. -/
def read (w : Word) (c : Char) (letters : List Letter) : Word :=
  ⟨w.source ++ [c], w.letters ++ letters⟩

@[simp] theorem read_source (w : Word) (c : Char) (letters : List Letter) :
    (w.read c letters).source = w.source ++ [c] := rfl

/-- A word without quotes. -/
def bare (text : List Char) : Word := ⟨text, text.map fun c => ⟨c, .bare⟩⟩

/-- The word that is a value: none of its letters has a meaning. -/
def verbatim (value : String) : Word :=
  ⟨(ShellWord.quote value).toList, value.toList.map fun c => ⟨c, .strong⟩⟩

/-- The token that a word is when it ends before a character: digits right before a redirection
are the number of a file. -/
def token (w : Word) (next : Char) : Token :=
  if (next == '<' || next == '>') && !w.letters.isEmpty &&
      w.letters.all (fun l => l.quoting == .bare && l.char.isDigit) then
    .number (w.letters.map Letter.char)
  else .word w

theorem eq_of_token {w u : Word} {next : Char} (h : w.token next = .word u) :
    u = w := by
  rw [token] at h
  split at h
  · cases h
  · cases h
    rfl

end Word

/-! ### Reading -/

/-- How the parts are read that are not divided into tokens. -/
structure Reader (σ : Type) where
  /-- Begins the expansion with this introduction, in double quotes or not. -/
  opens : (quoted : Bool) → List Char → Option σ
  /-- Begins the bodies for these operators and delimiters. -/
  documents : List (List Char × Word) → Option σ
  /-- Reads a character; without a result it was the last one. -/
  reads : σ → Char → Option σ

/-- The operators. -/
def operators : List (List Char) :=
  [['&'], ['('], [')'], [';'], ['<'], ['>'], ['|'], ['&', '&'], ['|', '|'], [';', ';'], [';', '&'],
    ['<', '<'], ['>', '>'], ['<', '&'], ['>', '&'], ['<', '>'], ['<', '<', '-'], ['>', '|']]

/-- Whether a text is an operator. -/
def isOperator (text : List Char) : Bool := operators.contains text

/-- Whether an operator is followed by the delimiter of a here-document. -/
def takesDocument (operator : List Char) : Bool :=
  operator == ['<', '<'] || operator == ['<', '<', '-']

/-- Whether a character is a blank. -/
def isBlank (c : Char) : Bool := c == ' ' || c == '\t'

/-- Whether a character sets words apart. -/
def isSeparator (c : Char) : Bool := isBlank c || c == '\n'

/-- What the last character of a word may be the start of. -/
inductive Lead where
  /-- Nothing. -/
  | nothing
  /-- An expansion. -/
  | dollar
  /-- A quoted character, or the end of a line that goes on. -/
  | backslash (afterDollar : Bool)
  deriving DecidableEq, Repr

namespace Lead

/-- What there was before a backslash. -/
def before (afterDollar : Bool) : Lead := if afterDollar then .dollar else .nothing

/-- What a character may be the start of; two dollar signs are an expansion by themselves. -/
def next (lead : Lead) (c : Char) : Lead :=
  if c == '$' && lead != .dollar then .dollar else .nothing

end Lead

/-- Where in a word the reading is. -/
inductive Part (σ : Type) where
  /-- Outside of quotes. -/
  | plain (lead : Lead)
  /-- In single quotes. -/
  | single
  /-- In double quotes. -/
  | double (lead : Lead)
  /-- In an expansion, in double quotes or not. -/
  | expansion (s : σ) (quoted : Bool)

/-- Where in a line the reading is. -/
inductive Mode (σ : Type) where
  /-- Between tokens, perhaps after a backslash. -/
  | gap (escaped : Bool)
  /-- In a comment. -/
  | comment
  /-- In an operator, perhaps after a backslash. -/
  | operator (text : List Char) (escaped : Bool)
  /-- In a word. -/
  | word (w : Word) (part : Part σ)
  /-- In the bodies of here-documents. -/
  | document (s : σ) (text : List Char)

/-- The state of the reading. -/
structure State (σ : Type) where
  /-- Where it is. -/
  mode : Mode σ
  /-- The operator of a here-document whose delimiter comes next. -/
  awaits : Option (List Char)
  /-- The here-documents of this line. -/
  pending : List (List Char × Word)

variable {σ : Type}

/-- The expansion that a character begins, after a dollar sign or by itself. -/
def Reader.expansion (r : Reader σ) (quoted : Bool) (lead : Lead) (c : Char) : Option σ :=
  (if lead == .dollar then r.opens quoted ['$', c] else none).or
    (if c == '`' then r.opens quoted ['`'] else none)

namespace Word

/-- A character outside of quotes; without a result the word ends before it. -/
def readPlain (r : Reader σ) (w : Word) (lead : Lead) (c : Char) : Option (Word × Part σ) :=
  match lead with
  | .backslash afterDollar =>
    if c == '\n' then some (w.read c [], .plain (.before afterDollar))
    else some (w.read c [⟨c, .strong⟩], .plain .nothing)
  | _ =>
    match r.expansion false lead c with
    | some s => some (w.read c [⟨c, .bare⟩], .expansion s false)
    | none =>
      if c == '\\' then some (w.read c [], .plain (.backslash (lead == .dollar)))
      else if c == '\'' then some (w.read c [], .single)
      else if c == '"' then some (w.read c [], .double .nothing)
      else if isSeparator c || isOperator [c] then none
      else some (w.read c [⟨c, .bare⟩], .plain (lead.next c))

/-- A character in double quotes, where a backslash takes only some characters. -/
def readDouble (r : Reader σ) (w : Word) (lead : Lead) (c : Char) : Word × Part σ :=
  match lead with
  | .backslash afterDollar =>
    if c == '\n' then (w.read c [], .double (.before afterDollar))
    else if c == '$' || c == '`' || c == '"' || c == '\\' then
      (w.read c [⟨c, .strong⟩], .double .nothing)
    else (w.read c [⟨'\\', .weak⟩, ⟨c, .weak⟩], .double .nothing)
  | _ =>
    match r.expansion true lead c with
    | some s => (w.read c [⟨c, .weak⟩], .expansion s true)
    | none =>
      if c == '\\' then (w.read c [], .double (.backslash (lead == .dollar)))
      else if c == '"' then (w.read c [], .plain .nothing)
      else (w.read c [⟨c, .weak⟩], .double (lead.next c))

/-- A character of an expansion, which the reader may end. -/
def readExpansion (r : Reader σ) (w : Word) (s : σ) (quoted : Bool) (c : Char) : Word × Part σ :=
  (w.read c [⟨c, if quoted then .weak else .bare⟩],
    match r.reads s c with
    | some s => .expansion s quoted
    | none => if quoted then .double .nothing else .plain .nothing)

/-- A character of a word; without a result the word ends before it. -/
def readNext (r : Reader σ) (w : Word) (part : Part σ) (c : Char) : Option (Word × Part σ) :=
  match part with
  | .plain lead => w.readPlain r lead c
  | .single =>
    if c == '\'' then some (w.read c [], .plain .nothing)
    else some (w.read c [⟨c, .strong⟩], .single)
  | .double lead => some (w.readDouble r lead c)
  | .expansion s quoted => some (w.readExpansion r s quoted c)

/-- The word at the end of the text, if it may end there. A backslash at the end stands for
itself. -/
def atEnd (w : Word) : Part σ → Option Word
  | .plain (.backslash _) => some ⟨w.source, w.letters ++ [⟨'\\', .strong⟩]⟩
  | .plain _ => some w
  | _ => none

/-- A word that begins with a character after a backslash. -/
def escaped (c : Char) : Word := ⟨['\\', c], [⟨c, .strong⟩]⟩

/-- A backslash at the end of the text. -/
def backslash : Word := ⟨['\\'], [⟨'\\', .strong⟩]⟩

end Word

namespace State

/-- The state at the start of a line. -/
def start : State σ := ⟨.gap false, none, []⟩

/-- The state elsewhere. -/
def enter (S : State σ) (mode : Mode σ) : State σ := { S with mode := mode }

/-- The state after an operator. -/
def afterOperator (S : State σ) (text : List Char) : State σ :=
  { S with awaits := if takesDocument text then some text else none }

/-- The state after a word or number: a delimiter that was waited for is there. -/
def afterToken (S : State σ) (t : Token) : State σ :=
  match S.awaits, t with
  | some operator, .word w => { S with awaits := none, pending := S.pending ++ [(operator, w)] }
  | _, _ => S

/-- The state after the end of a line. -/
def afterLine (r : Reader σ) (S : State σ) : State σ :=
  match r.documents S.pending with
  | none => start
  | some s => start.enter (.document s [])

/-- What a character between tokens begins. -/
def begin (r : Reader σ) (S : State σ) (c : Char) : List Token × State σ :=
  if c == '\\' then ([], S.enter (.gap true))
  else if c == '#' then ([], S.enter .comment)
  else
    match Word.empty.readPlain r .nothing c with
    | some (w, part) => ([], S.enter (.word w part))
    | none =>
      if c == '\n' then ([.operator ['\n']], S.afterLine r)
      else if isBlank c then ([], S.enter (.gap false))
      else ([], S.enter (.operator [c] false))

/-- A token that ends before a character, and what the character begins. -/
def endToken (r : Reader σ) (S : State σ) (t : Token) (c : Char) : List Token × State σ :=
  (t :: (S.begin r c).1, (S.begin r c).2)

end State

/-- One character: the tokens that end before it or with it, and the state after it. -/
def step (r : Reader σ) (S : State σ) (c : Char) : List Token × State σ :=
  match S.mode with
  | .gap false => S.begin r c
  | .gap true =>
    if c == '\n' then ([], S.enter (.gap false))
    else ([], S.enter (.word (.escaped c) (.plain .nothing)))
  | .comment => if c == '\n' then S.begin r c else ([], S)
  | .operator text false =>
    if c == '\\' then ([], S.enter (.operator text true))
    else if isOperator (text ++ [c]) then ([], S.enter (.operator (text ++ [c]) false))
    else (S.afterOperator text).endToken r (.operator text) c
  | .operator text true =>
    if c == '\n' then ([], S.enter (.operator text false))
    else
      ([.operator text],
        (S.afterOperator text).enter (.word (.escaped c) (.plain .nothing)))
  | .word w part =>
    match w.readNext r part c with
    | some (w, part) => ([], S.enter (.word w part))
    | none => (S.afterToken (w.token c)).endToken r (w.token c) c
  | .document s text =>
    match r.reads s c with
    | some s => ([], S.enter (.document s (text ++ [c])))
    | none => ([.document (text ++ [c])], S.enter (.gap false))

/-- The tokens that end with the text; without a result a quote or an expansion is open. -/
def finish (S : State σ) : Option (List Token) :=
  match S.mode with
  | .gap false | .comment => some []
  | .gap true => some [.word .backslash]
  | .operator text false => some [.operator text]
  | .operator text true => some [.operator text, .word .backslash]
  | .word w part => (w.atEnd part).map fun w => [.word w]
  | .document _ text => some [.document text]

/-- A text: the tokens that end in it, and the state after it. -/
def run (r : Reader σ) (S : State σ) : List Char → List Token × State σ
  | [] => ([], S)
  | c :: text =>
    ((step r S c).1 ++ (run r (step r S c).2 text).1, (run r (step r S c).2 text).2)

/-- The tokens of a text that is read from a state on. -/
def tokensFrom (r : Reader σ) (S : State σ) (text : List Char) : Option (List Token) :=
  (finish (run r S text).2).map ((run r S text).1 ++ ·)

/-- The tokens of a text. -/
def tokens (r : Reader σ) (text : String) : Option (List Token) :=
  tokensFrom r State.start text.toList

/-! ### Where words come from -/

section Source

variable {r : Reader σ} {S : State σ} {w u : Word} {c : Char}

/-- What has been read of the word that the reading is in. -/
def State.raw (S : State σ) : List Char :=
  match S.mode with
  | .gap true | .operator _ true => ['\\']
  | .word w _ => w.source
  | _ => []

theorem Word.source_readPlain {lead : Lead} {part : Part σ}
    (h : w.readPlain r lead c = some (u, part)) : u.source = w.source ++ [c] := by
  unfold readPlain at h
  split at h
  · split at h <;> cases h <;> rfl
  · split at h
    · cases h
      rfl
    · grind [read_source]

theorem Word.source_readDouble (r : Reader σ) (w : Word) (lead : Lead) (c : Char) :
    (w.readDouble r lead c).1.source = w.source ++ [c] := by
  unfold readDouble
  split
  · split
    · rfl
    · split <;> rfl
  · split
    · rfl
    · grind [read_source]

theorem Word.source_readNext {part part' : Part σ}
    (h : w.readNext r part c = some (u, part')) : u.source = w.source ++ [c] := by
  cases part with
  | plain lead => exact source_readPlain h
  | single =>
    rw [readNext] at h
    split at h <;> cases h <;> rfl
  | double lead =>
    have hdouble := source_readDouble r w lead c
    rw [Option.some.inj h] at hdouble
    exact hdouble
  | expansion s quoted =>
    cases h
    rfl

theorem Word.source_atEnd {part : Part σ} (h : w.atEnd part = some u) : u.source = w.source := by
  unfold atEnd at h
  split at h <;> cases h <;> rfl

/-- A character between tokens ends no word, and at most begins one. -/
theorem State.begin_source (r : Reader σ) (S : State σ) (c : Char) :
    (∀ u, .word u ∉ (S.begin r c).1) ∧
      ((S.begin r c).2.raw = [c] ∨ (S.begin r c).2.raw = []) := by
  unfold begin
  split
  · rename_i hc
    rw [eq_of_beq hc]
    exact ⟨fun u => List.not_mem_nil, Or.inl rfl⟩
  · split
    · exact ⟨fun u => List.not_mem_nil, Or.inr rfl⟩
    · split
      · rename_i w part hword
        exact ⟨fun u => List.not_mem_nil, Or.inl (Word.source_readPlain hword)⟩
      · split
        · refine ⟨fun u hu => ?_, Or.inr ?_⟩
          · cases List.mem_singleton.mp hu
          · show (S.afterLine r).raw = []
            unfold afterLine
            split <;> rfl
        · split <;> exact ⟨fun u => List.not_mem_nil, Or.inr rfl⟩

/-- A word that ends is what has been read of it, and a character is read as part of a word, as
the start of one, or apart from words. -/
theorem step_source (r : Reader σ) (S : State σ) (c : Char) :
    (∀ u, .word u ∈ (step r S c).1 → u.source = S.raw) ∧
      ((step r S c).2.raw = S.raw ++ [c] ∨ (step r S c).2.raw = [c] ∨
        (step r S c).2.raw = []) := by
  have hbegin := fun S : State σ => S.begin_source r c
  have hnone : ∀ {raw : List Char}, ∀ u, .word u ∈ ([] : List Token) → u.source = raw :=
    fun u hu => absurd hu List.not_mem_nil
  obtain ⟨mode, awaits, pending⟩ := S
  cases mode with
  | gap escaped =>
    cases escaped with
    | false => exact ⟨fun u hu => absurd hu ((hbegin _).1 u), Or.inr (hbegin _).2⟩
    | true =>
      dsimp only [step]
      split
      · exact ⟨hnone, Or.inr (Or.inr rfl)⟩
      · exact ⟨hnone, Or.inl rfl⟩
  | comment =>
    dsimp only [step]
    split
    · exact ⟨fun u hu => absurd hu ((hbegin _).1 u), Or.inr (hbegin _).2⟩
    · exact ⟨hnone, Or.inr (Or.inr rfl)⟩
  | operator text escaped =>
    cases escaped with
    | false =>
      dsimp only [step]
      split
      · rename_i hc
        rw [eq_of_beq hc]
        exact ⟨hnone, Or.inr (Or.inl rfl)⟩
      · split
        · exact ⟨hnone, Or.inr (Or.inr rfl)⟩
        · refine ⟨fun u hu => ?_, Or.inr (hbegin _).2⟩
          rcases List.mem_cons.mp hu with heq | hu
          · cases heq
          · exact absurd hu ((hbegin _).1 u)
    | true =>
      dsimp only [step]
      split
      · exact ⟨hnone, Or.inr (Or.inr rfl)⟩
      · refine ⟨fun u hu => ?_, Or.inl rfl⟩
        cases List.mem_singleton.mp hu
  | word w part =>
    dsimp only [step]
    split
    · rename_i w' part' hnext
      exact ⟨hnone, Or.inl (Word.source_readNext hnext)⟩
    · refine ⟨fun u hu => ?_, Or.inr (hbegin _).2⟩
      rcases List.mem_cons.mp hu with heq | hu
      · rw [Word.eq_of_token heq.symm]
        rfl
      · exact absurd hu ((hbegin _).1 u)
  | document s text =>
    dsimp only [step]
    split
    · exact ⟨hnone, Or.inr (Or.inr rfl)⟩
    · refine ⟨fun u hu => ?_, Or.inr (Or.inr rfl)⟩
      cases List.mem_singleton.mp hu

/-- So is a word that ends with the text. -/
theorem finish_source {found : List Token} (h : finish S = some found) (hu : .word u ∈ found) :
    u.source = S.raw := by
  obtain ⟨mode, awaits, pending⟩ := S
  cases mode with
  | gap escaped =>
    cases escaped with
    | false =>
      cases h
      cases hu
    | true =>
      cases h
      cases List.mem_singleton.mp hu
      rfl
  | comment =>
    cases h
    cases hu
  | operator text escaped =>
    cases escaped with
    | false =>
      cases h
      cases List.mem_singleton.mp hu
    | true =>
      cases h
      rcases List.mem_cons.mp hu with heq | hu
      · cases heq
      · cases List.mem_singleton.mp hu
        rfl
  | word w part =>
    obtain ⟨u', hend, rfl⟩ := Option.map_eq_some_iff.mp h
    cases List.mem_singleton.mp hu
    exact Word.source_atEnd hend
  | document s text =>
    cases h
    cases List.mem_singleton.mp hu

end Source

/-! ### Reading on in a word -/

section Reading

variable {r : Reader σ} {S : State σ} {w u : Word} {c : Char}

/-- Whether a character means nothing outside of quotes, apart from what a word begins with. -/
def isPlain (c : Char) : Bool :=
  !(isSeparator c || isOperator [c] || c == '\\' || c == '\'' || c == '"' || c == '`' || c == '$')

theorem Word.readNext_plain (r : Reader σ) (w : Word) (h : isPlain c = true) :
    w.readNext r (.plain .nothing) c = some (w.read c [⟨c, .bare⟩], .plain .nothing) := by
  grind [isPlain, readNext, readPlain, Reader.expansion, Lead.next]

theorem Word.readNext_separator (r : Reader σ) (w : Word) (h : isSeparator c = true) :
    w.readNext r (.plain .nothing) c = none := by
  grind [isSeparator, isBlank, readNext, readPlain, Reader.expansion]

theorem Word.token_separator (w : Word) (h : isSeparator c = true) : w.token c = .word w := by
  grind [isSeparator, isBlank, token]

/-- What a character begins does not depend on what was before it. -/
theorem State.begin_enter (r : Reader σ) (S : State σ) (mode : Mode σ) (c : Char) :
    (S.enter mode).begin r c = S.begin r c := rfl

theorem run_append (r : Reader σ) (S : State σ) (front text : List Char) :
    run r S (front ++ text) =
      ((run r S front).1 ++ (run r (run r S front).2 text).1,
        (run r (run r S front).2 text).2) := by
  induction front generalizing S with
  | nil => rfl
  | cons c front ih => rw [List.cons_append, run, ih, run, List.append_assoc]

theorem tokensFrom_append (r : Reader σ) (S : State σ) (front text : List Char) :
    tokensFrom r S (front ++ text) =
      (tokensFrom r (run r S front).2 text).map ((run r S front).1 ++ ·) := by
  rw [tokensFrom, run_append, tokensFrom, Option.map_map]
  simp only [Function.comp_def, List.append_assoc]

theorem tokensFrom_cons (r : Reader σ) (S : State σ) (c : Char) (text : List Char) :
    tokensFrom r S (c :: text) =
      (tokensFrom r (step r S c).2 text).map ((step r S c).1 ++ ·) := by
  have happend := tokensFrom_append r S [c] text
  rwa [run, run, List.append_nil] at happend

/-- What is read without a token leaves nothing but its state. -/
theorem tokensFrom_of_run {S S' : State σ} {front : List Char} (h : run r S front = ([], S'))
    (text : List Char) : tokensFrom r S (front ++ text) = tokensFrom r S' text := by
  rw [tokensFrom_append, h]
  exact Option.map_id'

theorem run_readNext {part part' : Part σ} (h : w.readNext r part c = some (u, part'))
    (S : State σ) (text : List Char) :
    run r (S.enter (.word w part)) (c :: text) = run r (S.enter (.word u part')) text := by
  have hstep : step r (S.enter (.word w part)) c = ([], S.enter (.word u part')) := by
    dsimp only [step, State.enter]
    rw [h]
  rw [run, hstep]
  rfl

/-- Plain characters become bare letters. -/
theorem run_plain (r : Reader σ) (S : State σ) (w : Word) {text : List Char}
    (h : ∀ c ∈ text, isPlain c = true) :
    run r (S.enter (.word w (.plain .nothing))) text =
      ([], S.enter (.word ⟨w.source ++ text, w.letters ++ text.map fun c => ⟨c, .bare⟩⟩
        (.plain .nothing))) := by
  induction text generalizing w with
  | nil => simp [run]
  | cons c text ih =>
    obtain ⟨hc, htext⟩ := List.forall_mem_cons.mp h
    rw [run_readNext (w.readNext_plain r hc), ih _ htext]
    simp [Word.read]

/-- In single quotes a quoted character becomes a letter that stands for itself. -/
theorem run_quoteChar (r : Reader σ) (S : State σ) (w : Word) (c : Char) (text : List Char) :
    run r (S.enter (.word w .single)) (ShellWord.quoteChar c ++ text) =
      run r
        (S.enter (.word ⟨w.source ++ ShellWord.quoteChar c, w.letters ++ [⟨c, .strong⟩]⟩ .single))
        text := by
  rw [ShellWord.quoteChar]
  split
  · rename_i hc
    obtain rfl : c = '\'' := eq_of_beq hc
    -- the quotes end, the quote stands after a backslash, and quotes begin again
    have hclose : w.readNext r .single '\'' = some (w.read '\'' [], .plain .nothing) := rfl
    have hslash (w : Word) : w.readNext r (.plain .nothing) '\\' =
        some (w.read '\\' [], .plain (.backslash false)) := rfl
    have hquote (w : Word) : w.readNext r (.plain (.backslash false)) '\'' =
        some (w.read '\'' [⟨'\'', .strong⟩], .plain .nothing) := rfl
    have hopen (w : Word) : w.readNext r (.plain .nothing) '\'' =
        some (w.read '\'' [], .single) := rfl
    simp only [List.cons_append, List.nil_append]
    rw [run_readNext hclose, run_readNext (hslash _), run_readNext (hquote _),
      run_readNext (hopen _)]
    simp [Word.read]
  · rename_i hc
    have hnext : w.readNext r .single c = some (w.read c [⟨c, .strong⟩], .single) := if_neg hc
    rw [List.cons_append, List.nil_append, run_readNext hnext, Word.read]

theorem run_quoteChars (r : Reader σ) (S : State σ) (w : Word) (value text : List Char) :
    run r (S.enter (.word w .single)) (value.flatMap ShellWord.quoteChar ++ text) =
      run r
        (S.enter (.word ⟨w.source ++ value.flatMap ShellWord.quoteChar,
          w.letters ++ value.map fun c => ⟨c, .strong⟩⟩ .single)) text := by
  induction value generalizing w with
  | nil => simp
  | cons c value ih =>
    rw [List.flatMap_cons, List.append_assoc, run_quoteChar, ih]
    simp

/-- A quoted value is read as the word that is the value. -/
theorem run_quote (r : Reader σ) (hgap : S.mode = .gap false) (value : String) :
    run r S (ShellWord.quote value).toList =
      ([], S.enter (.word (.verbatim value) (.plain .nothing))) := by
  have hopen : step r S '\'' = ([], S.enter (.word ⟨['\''], []⟩ .single)) := by
    rw [step, hgap]
    rfl
  have hclose (w : Word) : w.readNext r .single '\'' =
      some (w.read '\'' [], .plain .nothing) := rfl
  have hsource : (ShellWord.quote value).toList =
      '\'' :: (value.toList.flatMap ShellWord.quoteChar ++ ['\'']) := by
    rw [ShellWord.quote, String.toList_ofList, List.cons_append]
  rw [hsource, run, hopen, run_quoteChars, run_readNext (hclose _)]
  simp [Word.verbatim, hsource, Word.read, run]

/-! ### Words that stand apart -/

/-- Whether a word may begin that is not the delimiter of a here-document. -/
def State.isFree (S : State σ) : Bool :=
  match S.mode, S.awaits with
  | .gap false, none => true
  | _, _ => false

theorem State.isFree_iff :
    S.isFree = true ↔ S.mode = .gap false ∧ S.awaits = none := by
  unfold isFree
  split
  · rename_i hgap hawaits
    exact iff_of_true rfl ⟨hgap, hawaits⟩
  · rename_i hnot
    exact iff_of_false Bool.false_ne_true fun h => hnot h.1 h.2

/-- Plain characters are read as a word, unless it begins a comment. -/
theorem run_bare (r : Reader σ) (hfree : S.isFree = true) {text : List Char} (hc : isPlain c = true)
    (hcomment : c ≠ '#') (h : ∀ c ∈ text, isPlain c = true) :
    run r S (c :: text) = ([], S.enter (.word (.bare (c :: text)) (.plain .nothing))) := by
  have hopen : step r S c =
      ([], S.enter (.word (Word.empty.read c [⟨c, .bare⟩]) (.plain .nothing))) := by
    have hread : Word.empty.readPlain r .nothing c =
        some (Word.empty.read c [⟨c, .bare⟩], .plain .nothing) := Word.readNext_plain r .empty hc
    rw [step, (State.isFree_iff.mp hfree).1]
    have hslash : c ≠ '\\' := by
      rintro rfl
      cases hc
    simp [State.begin, hread, hslash, hcomment]
  rw [run, hopen, run_plain r S _ h]
  rfl

theorem run_blank (r : Reader σ) (hfree : S.isFree = true) : run r S [' '] = ([], S) := by
  obtain ⟨mode, awaits, pending⟩ := S
  have hgap : mode = .gap false := (State.isFree_iff.mp hfree).1
  subst hgap
  rfl

/-- Whether a text is empty or begins with what sets words apart. -/
def isApart : List Char → Bool
  | [] => true
  | c :: _ => isSeparator c

/-- At what sets words apart a word ends, and reading goes on as if it had not been there. -/
theorem step_separator (hfree : S.isFree = true) (w : Word) (hc : isSeparator c = true) :
    step r (S.enter (.word w (.plain .nothing))) c =
      (.word w :: (step r S c).1, (step r S c).2) := by
  obtain ⟨hgap, hawaits⟩ := State.isFree_iff.mp hfree
  have hword : step r (S.enter (.word w (.plain .nothing))) c =
      ((S.enter (.word w (.plain .nothing))).afterToken (w.token c)).endToken r (w.token c) c := by
    dsimp only [step, State.enter]
    rw [Word.readNext_separator r w hc]
  have hafter : (S.enter (.word w (.plain .nothing))).afterToken (.word w) =
      S.enter (.word w (.plain .nothing)) := by
    unfold State.afterToken
    rw [State.enter, hawaits]
  have hbegin : step r S c = S.begin r c := by rw [step, hgap]
  rw [hword, Word.token_separator w hc, hafter, hbegin, State.endToken, State.begin_enter]

theorem tokensFrom_word (hfree : S.isFree = true) (w : Word) {text : List Char}
    (hapart : isApart text = true) :
    tokensFrom r (S.enter (.word w (.plain .nothing))) text =
      (tokensFrom r S text).map (.word w :: ·) := by
  cases text with
  | nil =>
    rw [tokensFrom, tokensFrom, run, run, finish, finish, (State.isFree_iff.mp hfree).1]
    rfl
  | cons c text =>
    rw [tokensFrom_cons, tokensFrom_cons, step_separator hfree w hapart, Option.map_map]
    rfl

/-- **A quoted value is a word.** Where a word may begin and what follows is apart from it, the
word is the value and nothing else, whatever the value is. -/
theorem tokensFrom_value (hfree : S.isFree = true) (value : String) {text : List Char}
    (hapart : isApart text = true) :
    tokensFrom r S ((ShellWord.quote value).toList ++ text) =
      (tokensFrom r S text).map (.word (.verbatim value) :: ·) := by
  rw [tokensFrom_of_run (run_quote r (State.isFree_iff.mp hfree).1 value),
    tokensFrom_word hfree _ hapart]

end Reading

end Upkeep.Shell
