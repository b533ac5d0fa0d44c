/-!
# Glob patterns

Exclusions are written as shell patterns over whole package names: `?` for one character, `*` for
any run, a class in brackets for one character inside or (after `!`) outside it, and `**` for any
run of whole path components. Nothing is escaped, case matters, and neither a slash nor a leading
dot is special to `?`, `*` or a class.

A text that is not a pattern (an unclosed class, three stars, `**` next to part of a component)
matches nothing: `Glob.parse` refuses it.

## Main definitions

* `Glob.parse`: a text as a pattern.
* `Glob.matchesChars`: whether a pattern matches the whole of a text, piece by piece.
* `Glob.matchesText`: the same, in time that grows with the pattern and the text only.

## Main results

* `Glob.matchesText_eq`: the two agree.
-/

namespace Upkeep

namespace Glob

/-- One member of a class. -/
inductive Member where
  /-- One character. -/
  | one (c : Char)
  /-- The characters between two, both included. -/
  | range (first last : Char)
  deriving DecidableEq, Repr

/-- Whether a character belongs to a member. -/
def Member.has (c : Char) : Member → Bool
  | .one d => c == d
  | .range first last => first ≤ c && c ≤ last

/-- One piece of a pattern. -/
inductive Token where
  /-- A character. -/
  | char (c : Char)
  /-- Any one character. -/
  | anyChar
  /-- Any run of characters. -/
  | anyRun
  /-- Any run of whole path components. -/
  | anyComponents
  /-- One character of a class. -/
  | within (members : List Member)
  /-- One character outside a class. -/
  | outside (members : List Member)
  deriving DecidableEq, Repr

/-- A pattern. -/
abbrev Pattern := List Token

/-! ### Reading -/

/-- The members of a class, from the characters between its brackets. -/
def readMembers : List Char → List Member
  | a :: '-' :: b :: rest => .range a b :: readMembers rest
  | a :: rest => .one a :: readMembers rest
  | [] => []

/-- Splits at the first closing bracket. -/
def splitClass : List Char → Option (List Char × List Char)
  | [] => none
  | ']' :: rest => some ([], rest)
  | c :: rest => (splitClass rest).map (fun (inside, after) => (c :: inside, after))

/-- Reads a class after its opening bracket. Its first member may be a closing bracket. -/
def readClass : List Char → Option (Token × List Char)
  | '!' :: c :: rest =>
    (splitClass rest).map (fun (inside, after) => (.outside (readMembers (c :: inside)), after))
  | '!' :: [] => none
  | c :: rest =>
    (splitClass rest).map (fun (inside, after) => (.within (readMembers (c :: inside)), after))
  | [] => none

/-- How many stars a text starts with. -/
def countStars : List Char → Nat
  | '*' :: rest => countStars rest + 1
  | _ => 0

/-- A second run of components directly after another one adds nothing, except at the start. -/
def pushComponents (tokens : List Token) : List Token :=
  match tokens with
  | .anyComponents :: _ :: _ => tokens
  | _ => .anyComponents :: tokens

/-- Reads a pattern; `tokens` holds the pieces so far, last one first, and `boundary` says whether
a path component starts here. Each step uses up a character, which `fuel` counts. -/
def readFrom : (fuel : Nat) → (tokens : List Token) → (boundary : Bool) → List Char →
    Option Pattern
  | _, tokens, _, [] => some tokens.reverse
  | 0, _, _, _ => none
  | fuel + 1, tokens, boundary, c :: rest =>
    if c == '?' then readFrom fuel (.anyChar :: tokens) false rest
    else if c == '*' then
      let stars := countStars (c :: rest)
      if stars == 1 then readFrom fuel (.anyRun :: tokens) false rest
      else if stars == 2 && boundary then
        match rest.drop 1 with
        | [] => some (pushComponents tokens).reverse
        | '/' :: after => readFrom fuel (pushComponents tokens) true after
        | _ => none
      else none
    else if c == '[' then
      match readClass rest with
      | some (token, after) =>
        if after.length < (c :: rest).length then readFrom fuel (token :: tokens) false after
        else none
      | none => none
    else readFrom fuel (.char c :: tokens) (c == '/') rest

/-- A list of characters as a pattern. -/
def parseChars (cs : List Char) : Option Pattern := readFrom cs.length [] true cs

/-- A text as a pattern, when it is one. -/
def parse (s : String) : Option Pattern := parseChars s.toList

/-! ### Matching -/

/-- Whether some rest of the text satisfies a test. -/
def someRest (p : List Char → Bool) : List Char → Bool
  | [] => p []
  | c :: cs => p (c :: cs) || someRest p cs

/-- Whether the end of the text, or some rest of it after a slash, satisfies a test. -/
def someComponent (p : List Char → Bool) : List Char → Bool
  | [] => p []
  | c :: cs => (c == '/' && p cs) || someComponent p cs

/-- Whether a pattern matches the whole of a text. -/
def matchesChars : Pattern → List Char → Bool
  | [], cs => cs.isEmpty
  | .anyRun :: ts, cs => someRest (matchesChars ts) cs
  | .anyComponents :: ts, cs => matchesChars ts cs || someComponent (matchesChars ts) cs
  | .char d :: ts, c :: cs => c == d && matchesChars ts cs
  | .anyChar :: ts, _ :: cs => matchesChars ts cs
  | .within ms :: ts, c :: cs => ms.any (Member.has c) && matchesChars ts cs
  | .outside ms :: ts, c :: cs => !ms.any (Member.has c) && matchesChars ts cs
  | _ :: _, [] => false

/-! ### Matching without going back

Trying one run after another takes time exponential in the number of stars. The verdicts on all
rests of the text are found together instead, from the last piece of the pattern to the first, and
each piece takes one pass over the text.
-/

/-- Every rest of a text: the text itself first, the empty one last. -/
def rests : List Char → List (List Char)
  | [] => [[]]
  | c :: cs => (c :: cs) :: rests cs

/-- Verdicts on the rests when one character comes first that must pass a test. -/
def single (test : Char → Bool) : List Char → List Bool → List Bool
  | c :: cs, _ :: v :: vs => (test c && v) :: single test cs (v :: vs)
  | _, _ => [false]

/-- Verdicts on the rests when any run comes first. -/
def runs : List Bool → List Bool
  | [] => []
  | v :: vs =>
    let after := runs vs
    (v || after.headD false) :: after

/-- Verdicts on the rests when a run comes first that reaches the end, or ends in a slash. -/
def components : List Char → List Bool → List Bool
  | c :: cs, _ :: v :: vs =>
    let after := components cs (v :: vs)
    ((c == '/' && v) || after.headD false) :: after
  | _, vs => vs

/-- Verdicts on the rests of a text with one more piece in front of the pattern. -/
def Token.extend (cs : List Char) (vs : List Bool) : Token → List Bool
  | .char d => single (fun c => c == d) cs vs
  | .anyChar => single (fun _ => true) cs vs
  | .anyRun => runs vs
  | .anyComponents => List.zipWith (· || ·) vs (components cs vs)
  | .within ms => single (fun c => ms.any (Member.has c)) cs vs
  | .outside ms => single (fun c => !ms.any (Member.has c)) cs vs

/-- Whether a pattern matches, for every rest of a text. -/
def verdicts (cs : List Char) : Pattern → List Bool
  | [] => (rests cs).map List.isEmpty
  | t :: ts => t.extend cs (verdicts cs ts)

theorem headD_rests_map (f : List Char → Bool) (cs : List Char) :
    ((rests cs).map f).headD false = f cs := by
  cases cs <;> simp [rests]

/-- A piece that takes one character. -/
theorem single_rests (test : Char → Bool) (f : List Char → Bool) (cs : List Char) :
    single test cs ((rests cs).map f) =
      (rests cs).map fun
        | [] => false
        | c :: cs => test c && f cs := by
  induction cs with
  | nil => rfl
  | cons c cs ih =>
    cases cs with
    | nil => simp [rests, single]
    | cons d ds => simpa [rests, single] using ih

/-- A piece that takes any run. -/
theorem runs_rests (f : List Char → Bool) (cs : List Char) :
    runs ((rests cs).map f) = (rests cs).map (someRest f) := by
  induction cs with
  | nil => simp [rests, runs, someRest]
  | cons c cs ih =>
    simp only [rests, List.map_cons, runs, ih, headD_rests_map]
    simp [someRest]

/-- A piece that takes what a component ends. -/
theorem components_rests (f : List Char → Bool) (cs : List Char) :
    components cs ((rests cs).map f) = (rests cs).map (someComponent f) := by
  induction cs with
  | nil => simp [rests, components, someComponent]
  | cons c cs ih =>
    cases cs with
    | nil => simp [rests, components, someComponent]
    | cons d ds =>
      simp only [rests, List.map_cons] at ih
      simp [rests, components, someComponent, ih]

/-- The verdicts are what matching the rests one by one answers. -/
theorem verdicts_eq (cs : List Char) (p : Pattern) :
    verdicts cs p = (rests cs).map (matchesChars p) := by
  induction p with
  | nil =>
    rw [verdicts]
    exact List.map_congr_left fun r _ => by simp [matchesChars]
  | cons t ts ih =>
    rw [verdicts, ih]
    cases t with
    | anyRun =>
      rw [Token.extend, runs_rests]
      exact List.map_congr_left fun r _ => by simp [matchesChars]
    | anyComponents =>
      rw [Token.extend, components_rests, List.zipWith_map, List.zipWith_self]
      exact List.map_congr_left fun r _ => by simp [matchesChars]
    | char | anyChar | within | outside =>
      rw [Token.extend, single_rests]
      exact List.map_congr_left fun r _ => by cases r <;> simp [matchesChars]

/-- Whether a pattern matches the whole of a text. -/
def matchesText (p : Pattern) (s : String) : Bool := (verdicts s.toList p).headD false

theorem matchesText_eq (p : Pattern) (s : String) : matchesText p s = matchesChars p s.toList := by
  rw [matchesText, verdicts_eq, headD_rests_map]

end Glob

end Upkeep
