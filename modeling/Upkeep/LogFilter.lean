import Upkeep.Text.Chars

/-!
# Filters for log messages

A filter is a list of directives between commas. A directive has a level and says which messages
it is about: those of a target, those inside a span, or those with a field, else all of them. It
is written `target[span{field}]=level`; all but one part may be left out, and without a level it
stands for the most talkative one. A word that names a level is a level, any other word a target.

Blanks around a directive are no good: where its parts begin and end is found without them, but
the parts are then taken from these places in the text with them.

## Main definitions

* `LogLevel`, `LogFilter.Directive`, `LogFilter`.
* `LogFilter.parse`, `LogFilter.parseLoosely`: all directives have to be right, or those that are
  wrong are left out.
* `LogFilter.text`: the directives in order, the most specific first.
-/

namespace Upkeep

/-- How much is logged. -/
inductive LogLevel where
  /-- Nothing. -/
  | off
  /-- Errors. -/
  | error
  /-- Warnings too. -/
  | warn
  /-- What happens, too. -/
  | info
  /-- Details too. -/
  | debug
  /-- Everything. -/
  | trace
  deriving DecidableEq, Repr

namespace LogLevel

/-- The name of a level. -/
def name : LogLevel → String
  | .off => "off"
  | .error => "error"
  | .warn => "warn"
  | .info => "info"
  | .debug => "debug"
  | .trace => "trace"

/-- The levels, the quietest first. -/
def all : List LogLevel := [.off, .error, .warn, .info, .debug, .trace]

/-- The number that some digits write, a plus sign before them if need be. -/
def number? (cs : List Char) : Option Nat :=
  let digits := match cs with
    | '+' :: cs => cs
    | cs => cs
  if digits.isEmpty || !digits.all Char.isDigit then none else (String.ofList digits).toNat?

/-- The level of a name, in letters of any case, or of a number. -/
def parse (cs : List Char) : Option LogLevel :=
  match number? cs with
  | some n => all[n]?
  | none => all.find? (fun level => level.name.toList == cs.map Char.toLower)

end LogLevel

namespace LogFilter

/-- A field of messages: its name, and its value if that is to be a certain one. -/
structure Field where
  /-- The name. -/
  name : String
  /-- The value. -/
  value : Option String
  deriving DecidableEq, Repr

/-- One directive. -/
structure Directive where
  /-- The level. -/
  level : LogLevel
  /-- The target. -/
  target : Option String := none
  /-- The span. -/
  span : Option String := none
  /-- The field. -/
  field : Option Field := none
  deriving DecidableEq, Repr

/-! ### Reading -/

/-- Whether a directive may begin with a character, other than a bracket. -/
def isStart (c : Char) : Bool :=
  c.isAlphanum || 128 ≤ c.toNat || c == '-' || c == ':' || c == '_'

/-- The level at the end of a directive; none stands for the most talkative one. -/
def readLevel (cs : List Char) : Option LogLevel :=
  if cs.isEmpty then some .trace else LogLevel.parse cs

/-- A field: what follows a second equals sign does not count. -/
def readField (cs : List Char) : Option Field :=
  match (Text.splitOn '=' cs).map String.ofList with
  | [] => none
  | [name] => if cs.isEmpty then none else some ⟨name, none⟩
  | name :: value :: _ => some ⟨name, some value⟩

/-- What is left from a position on: nothing, or the level. -/
def readEnd (seen raw : List Char) (position : Nat) (d : Directive) : Option Directive :=
  match seen.drop position with
  | [] => some d
  | '=' :: _ => (readLevel (raw.drop (position + 1))).map fun level => { d with level := level }
  | _ => none

/-- What is in brackets from a position on, and what follows them. -/
def readBracket (seen raw : List Char) (position : Nat) (d : Directive) : Option Directive :=
  let size := ((seen.drop position).takeWhile (fun c => c != ']' && c != '\x7b')).length
  let span := String.ofList ((raw.drop position).take size)
  let position := position + size
  match seen.drop position with
  | ']' :: _ => readEnd seen raw (position + 1) { d with span := some span }
  | '\x7b' :: rest =>
    let size := (rest.takeWhile (· != '\x7d')).length
    match rest.drop size with
    | '\x7d' :: ']' :: _ =>
      (readField ((raw.drop (position + 1)).take size)).bind fun field =>
        readEnd seen raw (position + size + 3)
          { d with span := if span == "" then none else some span, field := some field }
    | _ => none
  | _ => none

/-- Reads a directive. -/
def readDirective (raw : List Char) : Option Directive :=
  let seen := Text.trim raw
  match seen with
  | [] => none
  | '[' :: _ => readBracket seen raw 1 { level := .trace }
  | c :: _ =>
    if !isStart c then none
    else
      let size := (seen.takeWhile (fun c => c != '=' && c != '[')).length
      let d : Directive := { level := .trace, target := some (String.ofList (raw.take size)) }
      match seen.drop size with
      | '[' :: _ => readBracket seen raw (size + 1) d
      | '=' :: _ => readEnd seen raw size d
      | _ =>
        match LogLevel.parse raw with
        | some level => some { level := level }
        | none => some { d with target := some (String.ofList raw) }

/-- The directives of a text, some of which may be none. -/
def readAll (text : String) : List (Option Directive) :=
  ((Text.splitOn ',' text.toList).filter (fun part => !part.isEmpty)).map readDirective

/-! ### Writing -/

/-- A field. -/
def Field.text (f : Field) : String :=
  match f.value with
  | some value => f.name ++ "=" ++ value
  | none => f.name

namespace Directive

/-- A directive. -/
def text (d : Directive) : String :=
  let field := match d.field with
    | some field => "\x7b" ++ field.text ++ "\x7d"
    | none => ""
  let inside := match d.span, d.field with
    | none, none => ""
    | _, _ => "[" ++ d.span.getD "" ++ field ++ "]"
  let about := d.target.getD "" ++ inside
  (if d.target.isNone && inside == "" then "" else about ++ "=") ++ d.level.name

/-- Whether a directive can only be judged while messages come in. -/
def isDynamic (d : Directive) : Bool := d.span.isSome || d.field.isSome

/-- Whether a directive can be judged by where a message is from and the fields it has. -/
def isStatic (d : Directive) : Bool :=
  d.span.isNone && d.field.all (fun field => field.value.isNone)

/-- What a directive is about, ranked by how specific it is: by the length of its target, then
its span, then its field. -/
def rank (d : Directive) : List Nat :=
  let size (s : Option String) : Nat := match s with
    | some s => s.utf8ByteSize + 1
    | none => 0
  [size d.target, d.span.isSome.toNat, d.field.isSome.toNat]

/-- What a directive is about, as text. -/
def about (d : Directive) : List (List Char) :=
  [d.target, d.span, d.field.map Field.text].map fun part => (part.getD "").toList

/-- Whether a directive comes before another one. -/
def isBefore (d e : Directive) : Bool :=
  e.rank < d.rank || (d.rank == e.rank && e.about < d.about)

end Directive

/-- Directives in order, with one more, which takes the place of one about the same messages. -/
def insert (d : Directive) : List Directive → List Directive
  | [] => [d]
  | e :: es =>
    if d.isBefore e then d :: e :: es
    else if e.isBefore d then e :: insert d es
    else d :: es

/-- Directives in order. -/
def inOrder (ds : List Directive) : List Directive := ds.foldl (fun es d => insert d es) []

end LogFilter

/-- A filter: its directives as they were given. -/
structure LogFilter where
  /-- The directives. -/
  directives : List LogFilter.Directive
  deriving DecidableEq, Repr

namespace LogFilter

/-- The filter of a text, all of whose directives have to be right. -/
def parse (text : String) : Option LogFilter :=
  ((readAll text).mapM id).map LogFilter.mk

/-- The filter of a text without the directives that are wrong; errors are logged when none are
left. -/
def parseLoosely (text : String) : LogFilter :=
  match (readAll text).filterMap id with
  | [] => ⟨[{ level := .error }]⟩
  | ds => ⟨ds⟩

/-- The directives of a filter: those that can be judged beforehand, then those that cannot. A
directive about a field can be both. -/
def text (f : LogFilter) : String :=
  let (dynamic, rest) := f.directives.partition Directive.isDynamic
  let all := inOrder (rest ++ dynamic.filter Directive.isStatic) ++ inOrder dynamic
  String.intercalate "," (all.map Directive.text)

end LogFilter

end Upkeep
