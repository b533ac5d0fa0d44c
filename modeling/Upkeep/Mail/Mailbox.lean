import Upkeep.Mail.Domain

/-!
# Mailboxes

A mailbox is an address, or a name and an address in angle brackets. Either part of an address is
a run of atoms between dots; a user may stand in quotes. A name is made of words, each an atom or
in quotes, and of dots. Characters beyond ASCII are atom characters.

Blanks may stand before every word and dot of a name. In an address they may stand before the user
and the domain, and, when these are no runs of atoms as they stand, before every part of them.

## Main definitions

* `Mailbox`, `Mailbox.parse`, `Mailbox.Flaw`.
* `Mailbox.address`: the address alone.
-/

namespace Upkeep

/-- Where mail goes, or where it comes from. -/
structure Mailbox where
  /-- The name of whoever reads it. -/
  name : Option String
  /-- The user. -/
  user : String
  /-- The domain. -/
  domain : String
  deriving DecidableEq, Repr

namespace Mailbox

/-- Why a text is no mailbox. -/
inductive Flaw where
  /-- It has not the form of one. -/
  | form
  /-- The user is too long, or not made of atoms. -/
  | user
  /-- The domain is none. -/
  | domain
  deriving DecidableEq, Repr

/-- The message. -/
def Flaw.message : Flaw → String
  | .form => "Invalid input"
  | .user => "Invalid email user"
  | .domain => "Invalid email domain"

/-! ### Words -/

/-- The blanks at which a header may be folded. -/
def isFold (c : Char) : Bool := c == ' ' || c == '\t'

/-- The first of the blanks a text starts with, and what follows them. -/
def readFold (cs : List Char) : List Char × List Char :=
  ((cs.takeWhile isFold).take 1, cs.dropWhile isFold)

/-- Whether a character may stand in quotes as it is. -/
def isQuotable (c : Char) : Bool :=
  !isFold c && c != '"' && c != '\\' && c != '\n' && c != '\r' && c != '\x00'

/-- Whether a character may follow a backslash in quotes. -/
def isEscapable (c : Char) : Bool := c.toNat < 128 && c != '\n' && c != '\r' && c != '\x00'

/-- Reads up to the closing quote. Blanks between characters (`fold` is the first of those just
passed) count as one, and those before the closing quote do not count. -/
def readQuoted (fold : List Char) : List Char → Option (List Char × List Char)
  | [] => none
  | '"' :: cs => some ([], cs)
  | '\\' :: c :: cs =>
    if isEscapable c then (readQuoted [] cs).map fun (more, rest) => (fold ++ c :: more, rest)
    else none
  | c :: cs =>
    if isFold c then readQuoted (if fold.isEmpty then [c] else fold) cs
    else if isQuotable c then
      (readQuoted [] cs).map fun (more, rest) => (fold ++ c :: more, rest)
    else
      match Text.trimStart (c :: cs) with
      | '"' :: rest => some ([], rest)
      | _ => none

/-- Reads an atom. -/
def readAtom (cs : List Char) : Option (List Char × List Char) :=
  let atom := cs.takeWhile Domain.isAtomChar
  if atom.isEmpty then none else some (atom, cs.drop atom.length)

/-- Reads an atom, or what stands in quotes. -/
def readWord : List Char → Option (List Char × List Char)
  | '"' :: cs => readQuoted [] cs
  | cs => readAtom cs

/-! ### Names -/

/-- Reads a word or a dot, after blanks that count as one. -/
def readPiece (cs : List Char) : Option (List Char × List Char) :=
  let (fold, cs) := readFold cs
  match cs with
  | '.' :: cs => some (fold ++ ['.'], cs)
  | cs => (readWord cs).map fun (word, rest) => (fold ++ word, rest)

/-- Reads words and dots as long as there are some; each uses up a character, which `fuel`
counts. -/
def readPieces : (fuel : Nat) → List Char → List Char × List Char
  | 0, cs => ([], cs)
  | fuel + 1, cs =>
    match readPiece cs with
    | some (piece, rest) =>
      let (more, rest) := readPieces fuel rest
      (piece ++ more, rest)
    | none => ([], cs)

/-- Reads a name: a word, then words and dots. -/
def readName (cs : List Char) : Option (List Char × List Char) :=
  (readWord (cs.dropWhile isFold)).map fun (word, rest) =>
    let (more, rest) := readPieces rest.length rest
    (word ++ more, rest)

/-! ### Addresses -/

/-- Reads parts between dots; each but the last uses up a dot, which `fuel` counts. A dot that no
part follows is left. -/
def readParts (part : List Char → Option (List Char × List Char)) :
    (fuel : Nat) → List Char → Option (List Char × List Char)
  | 0, cs => part cs
  | fuel + 1, cs =>
    match part cs with
    | some (first, '.' :: rest) =>
      match readParts part fuel rest with
      | some (more, rest) => some (first ++ '.' :: more, rest)
      | none => some (first, '.' :: rest)
    | other => other

/-- Reads atoms between dots, of which there has to be one. -/
def readDotted (cs : List Char) : Option (List Char × List Char) :=
  (readParts readAtom cs.length cs).filter fun (text, _) => text.contains '.'

/-- Reads a user. -/
def readUser (cs : List Char) : Option (List Char × List Char) :=
  let cs := cs.dropWhile isFold
  match readDotted cs, cs with
  | some found, _ => some found
  | none, '"' :: quoted => readQuoted [] quoted
  | none, cs => readParts (fun part => readWord (part.dropWhile isFold)) cs.length cs

/-- Reads a domain. -/
def readDomain (cs : List Char) : Option (List Char × List Char) :=
  let cs := cs.dropWhile isFold
  match readDotted cs with
  | some found => some found
  | none => readParts (fun part => readAtom (part.dropWhile isFold)) cs.length cs

/-- Reads a user, an at sign and a domain. -/
def readAddress (cs : List Char) : Option ((List Char × List Char) × List Char) :=
  match readUser cs with
  | some (user, '@' :: rest) => (readDomain rest).map fun (domain, rest) => ((user, domain), rest)
  | _ => none

/-- Whether a text may stand in quotes: every backslash comes before a visible character. -/
def isQuotedText : List Char → Bool
  | [] => true
  | '\\' :: c :: cs => '!' ≤ c && c ≤ '~' && isQuotedText cs
  | c :: cs => (isFold c || (' ' < c && c != '"' && c != '\\' && c != '\x7f')) && isQuotedText cs

/-- Whether a text can be a user: atoms between dots, or something in quotes of its own. -/
def isUser (cs : List Char) : Bool :=
  Domain.size cs ≤ 64 &&
    match cs with
    | '"' :: rest =>
      match rest.reverse with
      | '"' :: inside => !inside.isEmpty && isQuotedText inside.reverse
      | _ => false
    | cs => (Text.splitOn '.' cs).all fun part => !part.isEmpty && part.all Domain.isAtomChar

/-- The mailbox of a user and a domain, when they can be those of one. -/
def ofAddress (name : Option String) (user domain : List Char) : Except Flaw Mailbox :=
  if !isUser user then .error .user
  else if !Domain.isValid domain then .error .domain
  else .ok ⟨name, String.ofList user, String.ofList domain⟩

/-- The mailbox of a name, if there is one, and an address in angle brackets. -/
def ofBracketed (name : Option String) (cs : List Char) : Except Flaw Mailbox :=
  match readAddress cs with
  | some ((user, domain), '>' :: rest) =>
    if (Text.trimStart rest).isEmpty then ofAddress name user domain else .error .form
  | _ => .error .form

/-- The mailbox of an address alone. -/
def ofBare (cs : List Char) : Except Flaw Mailbox :=
  match readAddress cs with
  | some ((user, domain), rest) =>
    if (Text.trimStart rest).isEmpty then ofAddress none user domain else .error .form
  | none => .error .form

/-- Reads a mailbox. -/
def parse (text : String) : Except Flaw Mailbox :=
  let cs := Text.trimStart text.toList
  let (name, rest) := match readName cs with
    | some (name, rest) => (some (Text.trimString (String.ofList name)), rest)
    | none => (none, cs)
  match Text.trimStart rest with
  | '<' :: inside => ofBracketed name inside
  | _ => ofBare cs

/-- The address alone. -/
def address (m : Mailbox) : String := m.user ++ "@" ++ m.domain

end Mailbox

end Upkeep
