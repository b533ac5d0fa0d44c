import Upkeep.Toml.Value
import Upkeep.Text.Chars
import Upkeep.Time.Instant

/-!
# Reading TOML

TOML 1.0, read over a list of characters: every function returns what it read and what is left.
Arrays and inline tables may nest eighty deep and a dotted key may have eighty parts; the readers
of values carry the levels left, and the loops over statements and items carry the length of the
text, so everything is total.

## Main definitions

* `Toml.parse`: the document a text denotes.
-/

namespace Upkeep.Toml

/-- The characters left to read. -/
abbrev Rest := List Char

/-! ### Blanks, comments, line ends -/

/-- Skips blanks within a line. -/
def skipBlank (cs : Rest) : Rest := cs.dropWhile (fun c => c == ' ' || c == '\t')

/-- A line end at the start of a text. -/
def readNewline : Rest → Option Rest
  | '\n' :: rest => some rest
  | '\r' :: '\n' :: rest => some rest
  | _ => none

/-- Characters a comment may hold. -/
def isCommentChar (c : Char) : Bool :=
  c == '\t' || (0x20 ≤ c.toNat && c.toNat ≠ 0x7F)

/-- Skips a comment, up to the end of its line. -/
def skipComment : Rest → Rest
  | '#' :: rest => rest.dropWhile isCommentChar
  | cs => cs

/-- The end of a statement: blanks, a comment, and the end of the line or of the text. -/
def readLineEnd (cs : Rest) : Option Rest :=
  match skipComment (skipBlank cs) with
  | [] => some []
  | rest => readNewline rest

/-- Skips blanks, comments and line ends between array items. -/
def skipLines : (fuel : Nat) → Rest → Rest
  | 0, cs => cs
  | fuel + 1, cs =>
    let rest := skipComment (skipBlank cs)
    match readNewline rest with
    | some after => skipLines fuel after
    | none => rest

/-! ### Strings -/

/-- Characters a string may hold besides its quotes and escapes. -/
def isStringChar (c : Char) : Bool :=
  c == '\t' || (0x20 ≤ c.toNat && c.toNat ≠ 0x7F)

/-- The character of a code point given in hexadecimal. -/
def charOfHex (digits : List Char) : Option Char := do
  let values ← digits.mapM Text.hexDigit?
  let n := values.foldl (fun n d => n * 16 + d) 0
  if n < 0xD800 || (0xDFFF < n && n < 0x110000) then some (Char.ofNat n) else none

/-- Reads an escape after its backslash. -/
def readEscape : Rest → Option (Char × Rest)
  | 'b' :: rest => some (Char.ofNat 8, rest)
  | 't' :: rest => some ('\t', rest)
  | 'n' :: rest => some ('\n', rest)
  | 'f' :: rest => some (Char.ofNat 12, rest)
  | 'r' :: rest => some ('\r', rest)
  | '"' :: rest => some ('"', rest)
  | '\\' :: rest => some ('\\', rest)
  | 'u' :: rest =>
    if (rest.take 4).length == 4 then
      (charOfHex (rest.take 4)).map (fun c => (c, rest.drop 4))
    else none
  | 'U' :: rest =>
    if (rest.take 8).length == 8 then
      (charOfHex (rest.take 8)).map (fun c => (c, rest.drop 8))
    else none
  | _ => none

/-- Reads a string of one line after its opening quote. -/
def readBasic : (fuel : Nat) → Rest → Option (List Char × Rest)
  | 0, _ => none
  | fuel + 1, cs =>
    match cs with
    | '"' :: rest => some ([], rest)
    | '\\' :: rest => do
      let (c, rest) ← readEscape rest
      let (tail, rest) ← readBasic fuel rest
      some (c :: tail, rest)
    | c :: rest =>
      if isStringChar c then (readBasic fuel rest).map (fun (tail, r) => (c :: tail, r)) else none
    | [] => none

/-- Reads a literal string of one line after its opening quote. -/
def readLiteral : Rest → Option (List Char × Rest)
  | '\'' :: rest => some ([], rest)
  | c :: rest =>
    if isStringChar c then (readLiteral rest).map (fun (tail, r) => (c :: tail, r)) else none
  | [] => none

/-- The quotes at a place inside a string of many lines: fewer than three belong to it; three to
five close it, the first ones over three belonging to it. -/
def closing (quote : Char) (cs : Rest) : Option (List Char × Rest) :=
  let run := (cs.take 5).takeWhile (· == quote)
  if run.length < 3 then none
  else some (run.drop 3, cs.drop run.length)

/-- Skips blanks and line ends after an escaped line end. -/
def skipJoined (cs : Rest) : Rest :=
  match cs with
  | [] => []
  | ' ' :: rest => skipJoined rest
  | '\t' :: rest => skipJoined rest
  | '\n' :: rest => skipJoined rest
  | '\r' :: '\n' :: rest => skipJoined rest
  | c :: rest => c :: rest

/-- Reads a string of many lines after its opening quotes. -/
def readLongBasic : (fuel : Nat) → Rest → Option (List Char × Rest)
  | 0, _ => none
  | fuel + 1, cs =>
    match closing '"' cs with
    | some done => some done
    | none =>
      match cs with
      | '\\' :: rest =>
        match readNewline (skipBlank rest) with
        | some after => readLongBasic fuel (skipJoined after)
        | none => do
          let (c, rest) ← readEscape rest
          let (tail, rest) ← readLongBasic fuel rest
          some (c :: tail, rest)
      | c :: rest =>
        match readNewline (c :: rest) with
        | some after => (readLongBasic fuel after).map (fun (tail, r) => ('\n' :: tail, r))
        | none =>
          if isStringChar c then (readLongBasic fuel rest).map (fun (tail, r) => (c :: tail, r))
          else none
      | [] => none

/-- Reads a literal string of many lines after its opening quotes. -/
def readLongLiteral : (fuel : Nat) → Rest → Option (List Char × Rest)
  | 0, _ => none
  | fuel + 1, cs =>
    match closing '\'' cs with
    | some done => some done
    | none =>
      match cs with
      | c :: rest =>
        match readNewline (c :: rest) with
        | some after => (readLongLiteral fuel after).map (fun (tail, r) => ('\n' :: tail, r))
        | none =>
          if isStringChar c then (readLongLiteral fuel rest).map (fun (tail, r) => (c :: tail, r))
          else none
      | [] => none

/-- Drops a line end right after the opening quotes of a string of many lines. -/
def dropFirstNewline (cs : Rest) : Rest := (readNewline cs).getD cs

/-- Reads a string value. -/
def readText (cs : Rest) : Option (List Char × Rest) :=
  match cs with
  | '"' :: '"' :: '"' :: rest => readLongBasic (rest.length + 1) (dropFirstNewline rest)
  | '"' :: rest => readBasic (rest.length + 1) rest
  | '\'' :: '\'' :: '\'' :: rest => readLongLiteral (rest.length + 1) (dropFirstNewline rest)
  | '\'' :: rest => readLiteral rest
  | _ => none

/-! ### Keys -/

/-- Characters of a key without quotes. -/
def isBareKeyChar (c : Char) : Bool :=
  c.isAlphanum || c == '_' || c == '-'

/-- Reads one part of a key. -/
def readKeyPart (cs : Rest) : Option (String × Rest) :=
  match cs with
  | '"' :: rest => (readBasic (rest.length + 1) rest).map (fun (s, r) => (String.ofList s, r))
  | '\'' :: rest => (readLiteral rest).map (fun (s, r) => (String.ofList s, r))
  | _ =>
    let name := cs.takeWhile isBareKeyChar
    if name.isEmpty then none else some (String.ofList name, cs.drop name.length)

/-- Reads a key: parts with dots between them and blanks around each; `parts` bounds how many. -/
def readKey : (parts : Nat) → Rest → Option (List String × Rest)
  | 0, _ => none
  | parts + 1, cs => do
    let (part, rest) ← readKeyPart (skipBlank cs)
    match skipBlank rest with
    | '.' :: rest => (readKey parts rest).map (fun (more, r) => (part :: more, r))
    | rest => some ([part], rest)

/-- Parts a key may have, and levels values may nest. -/
def depthLimit : Nat := 80

/-! ### Numbers, dates and times -/

/-- Reads digits with single underscores between them; there must be at least one. -/
def readDigitRun (isDigit : Char → Bool) : Rest → Option (List Char × Rest)
  | c :: rest =>
    if isDigit c then
      match rest with
      | '_' :: d :: after =>
        if isDigit d then (readDigitRun isDigit (d :: after)).map (fun (ds, r) => (c :: ds, r))
        else some ([c], rest)
      | d :: after =>
        if isDigit d then (readDigitRun isDigit (d :: after)).map (fun (ds, r) => (c :: ds, r))
        else some ([c], rest)
      | [] => some ([c], [])
    else none
  | [] => none

/-- The value of digits in a base. -/
def valueIn (base : Nat) (digits : List Char) : Nat :=
  digits.foldl (fun n c => n * base + (Text.hexDigit? c).getD 0) 0

/-- Reads a whole part in decimal: a zero alone, or digits that start with another one. -/
def readWhole : Rest → Option (List Char × Rest)
  | '0' :: rest => some (['0'], rest)
  | cs => readDigitRun Char.isDigit cs

/-- An integer, when 64 bits hold it. -/
def bounded (n : Int) : Option Toml :=
  if -9223372036854775808 ≤ n && n ≤ 9223372036854775807 then some (.integer n) else none

/-- What is not below this bound rounds to infinity in 64 bits: it is half a step above the largest
floating-point number. -/
def floatBound : Nat := Nat.pow 2 1024 - Nat.pow 2 970

/-- Whether `n` times a power of ten is not below the bound. Far from it the number of digits
decides. -/
def isHuge (n : Nat) (exponent : Int) : Bool :=
  let magnitude := ((toString n).length : Int) + exponent
  if n == 0 || magnitude < 308 then false
  else if 310 < magnitude then true
  else if 0 ≤ exponent then floatBound ≤ n * Nat.pow 10 exponent.toNat
  else floatBound * Nat.pow 10 (-exponent).toNat ≤ n

/-- A floating-point number from the digits before and after its point and its exponent. It must
not be too large; on the negative side infinity takes what is too large. -/
def floating (negative : Bool) (whole part : List Char) (exponent : Int) : Option Toml :=
  if !negative && isHuge (valueIn 10 (whole ++ part)) (exponent - part.length) then none
  else some .float

/-- Reads an exponent after its letter. -/
def readExponent : Rest → Option (Int × Rest)
  | '+' :: rest => (readDigitRun Char.isDigit rest).map fun (ds, r) => ((valueIn 10 ds : Int), r)
  | '-' :: rest => (readDigitRun Char.isDigit rest).map fun (ds, r) => (-(valueIn 10 ds : Int), r)
  | rest => (readDigitRun Char.isDigit rest).map fun (ds, r) => ((valueIn 10 ds : Int), r)

/-- Reads the exponent of a floating-point number, if there is one. -/
def readFloatEnd (negative : Bool) (whole part : List Char) (cs : Rest) : Option (Toml × Rest) := do
  let (exponent, rest) ← match cs with
    | 'e' :: rest => readExponent rest
    | 'E' :: rest => readExponent rest
    | rest => some (0, rest)
  let value ← floating negative whole part exponent
  some (value, rest)

/-- Reads a number after its sign. -/
def readUnsigned (negative : Bool) (cs : Rest) : Option (Toml × Rest) :=
  match cs with
  | 'i' :: 'n' :: 'f' :: rest => some (.float, rest)
  | 'n' :: 'a' :: 'n' :: rest => some (.float, rest)
  | _ => do
    let (digits, rest) ← readWhole cs
    match rest with
    | '.' :: rest => do
      let (part, rest) ← readDigitRun Char.isDigit rest
      readFloatEnd negative digits part rest
    | 'e' :: _ => readFloatEnd negative digits [] rest
    | 'E' :: _ => readFloatEnd negative digits [] rest
    | rest => do
      let n : Int := (valueIn 10 digits : Nat)
      let value ← bounded (if negative then -n else n)
      some (value, rest)

/-- Reads an integer in another base after its two-letter mark. -/
def readBased (base : Nat) (isDigit : Char → Bool) (cs : Rest) : Option (Toml × Rest) := do
  let (digits, rest) ← readDigitRun isDigit cs
  let value ← bounded ((valueIn base digits : Nat) : Int)
  some (value, rest)

/-- Reads a number. -/
def readNumber (cs : Rest) : Option (Toml × Rest) :=
  match cs with
  | '+' :: rest => readUnsigned false rest
  | '-' :: rest => readUnsigned true rest
  | '0' :: 'x' :: rest => readBased 16 Text.isHexDigit rest
  | '0' :: 'o' :: rest => readBased 8 (fun c => '0' ≤ c && c ≤ '7') rest
  | '0' :: 'b' :: rest => readBased 2 (fun c => c == '0' || c == '1') rest
  | _ => readUnsigned false cs

/-- Reads a number of exactly `width` digits. -/
def readFixed (width : Nat) (cs : Rest) : Option (Nat × Rest) :=
  let digits := cs.take width
  if digits.length == width && digits.all Char.isDigit then
    some (valueIn 10 digits, cs.drop width)
  else none

/-- Reads a given character. -/
def readChar (c : Char) : Rest → Option Rest
  | d :: rest => if d == c then some rest else none
  | [] => none

/-- Reads a time of day. -/
def readTime (cs : Rest) : Option Rest := do
  let (hour, cs) ← readFixed 2 cs
  let cs ← readChar ':' cs
  let (minute, cs) ← readFixed 2 cs
  let cs ← readChar ':' cs
  let (sec, cs) ← readFixed 2 cs
  if 23 < hour || 59 < minute || 60 < sec then none
  else
    match cs with
    | '.' :: rest =>
      let digits := rest.takeWhile Char.isDigit
      if digits.isEmpty then some cs else some (rest.drop digits.length)
    | _ => some cs

/-- Reads a signed offset's hours and minutes. -/
def readOffsetBody (cs : Rest) : Option Rest := do
  let (hour, cs) ← readFixed 2 cs
  let cs ← readChar ':' cs
  let (minute, cs) ← readFixed 2 cs
  if 23 < hour || 59 < minute then none else some cs

/-- Reads an offset from UTC, if there is one. -/
def skipOffset (cs : Rest) : Rest :=
  match cs with
  | 'Z' :: rest => rest
  | 'z' :: rest => rest
  | '+' :: rest => (readOffsetBody rest).getD cs
  | '-' :: rest => (readOffsetBody rest).getD cs
  | _ => cs

/-- Reads a date, and a time of day with an offset when one follows. -/
def readDate (cs : Rest) : Option Rest := do
  let (y, cs) ← readFixed 4 cs
  let cs ← readChar '-' cs
  let (m, cs) ← readFixed 2 cs
  let cs ← readChar '-' cs
  let (d, cs) ← readFixed 2 cs
  if m < 1 || 12 < m || d < 1 || Instant.monthDays (y : Int) m < d then none
  else
    match cs with
    | c :: rest =>
      if c == 'T' || c == 't' || c == ' ' then
        match readTime rest with
        | some after => some (skipOffset after)
        | none => some cs
      else some cs
    | [] => some []

/-- Reads a value that starts with a sign or a digit. -/
def readScalar (cs : Rest) : Option (Toml × Rest) :=
  match readFixed 4 cs, readFixed 2 cs with
  | some (_, '-' :: _), _ => (readDate cs).map (fun r => (.moment, r))
  | _, some (_, ':' :: _) => (readTime cs).map (fun r => (.moment, r))
  | _, _ => readNumber cs

/-! ### Values -/

mutual
/-- Reads a value; `levels` bounds how deep it may nest, `fuel` the steps taken. -/
def readValue : (fuel levels : Nat) → Rest → Option (Toml × Rest)
  | 0, _, _ => none
  | fuel + 1, levels, cs =>
    match cs with
    | '"' :: _ => (readText cs).map (fun (s, r) => (.text (String.ofList s), r))
    | '\'' :: _ => (readText cs).map (fun (s, r) => (.text (String.ofList s), r))
    | '[' :: rest =>
      if levels == 0 then none
      else (readItems fuel (levels - 1) rest).map (fun (items, r) => (.array items, r))
    | '{' :: rest =>
      if levels == 0 then none
      else match skipBlank rest with
        | '}' :: r => some (.table .inline [], r)
        | r => readEntries fuel (levels - 1) (.table .inline []) r
    | 't' :: 'r' :: 'u' :: 'e' :: rest => some (.bool true, rest)
    | 'f' :: 'a' :: 'l' :: 's' :: 'e' :: rest => some (.bool false, rest)
    | 'i' :: 'n' :: 'f' :: rest => some (.float, rest)
    | 'n' :: 'a' :: 'n' :: rest => some (.float, rest)
    | _ => readScalar cs

/-- Reads array items up to the closing bracket. -/
def readItems : (fuel levels : Nat) → Rest → Option (List Toml × Rest)
  | 0, _, _ => none
  | fuel + 1, levels, cs =>
    match skipLines (cs.length + 1) cs with
    | ']' :: rest => some ([], rest)
    | start =>
      match readValue fuel levels start with
      | none => none
      | some (item, rest) =>
        match skipLines (rest.length + 1) rest with
        | ',' :: rest => (readItems fuel levels rest).map (fun (items, r) => (item :: items, r))
        | ']' :: rest => some ([item], rest)
        | _ => none

/-- Reads the entries of an inline table into it, up to the closing brace. -/
def readEntries : (fuel levels : Nat) → Toml → Rest → Option (Toml × Rest)
  | 0, _, _, _ => none
  | fuel + 1, levels, t, cs =>
    match readKey depthLimit cs with
    | some (key, '=' :: rest) =>
      match readValue fuel levels (skipBlank rest) with
      | some (value, rest) =>
        match under true (insertKey (1 < key.length) (key.getLast?.getD "") value)
            key.dropLast t with
        | some t =>
          match skipBlank rest with
          | ',' :: rest => readEntries fuel levels t rest
          | '}' :: rest => some (t, rest)
          | _ => none
        | none => none
      | none => none
    | _ => none
end

/-! ### Documents -/

/-- The document so far, and the header the next keys belong under. -/
structure State where
  /-- The document so far. -/
  document : Toml
  /-- The path of the last header. -/
  header : List String

/-- Reads one statement: a header, a double-bracket header, or a key and its value. -/
def readStatement (st : State) (cs : Rest) : Option (State × Rest) :=
  match cs with
  | '[' :: '[' :: rest => do
    let (key, rest) ← readKey depthLimit rest
    let rest ← readChar ']' rest
    let rest ← readChar ']' rest
    let rest ← readLineEnd rest
    let document ← addArrayHeader key.dropLast (key.getLast?.getD "") st.document
    some (⟨document, key⟩, rest)
  | '[' :: rest => do
    let (key, rest) ← readKey depthLimit rest
    let rest ← readChar ']' rest
    let rest ← readLineEnd rest
    let document ← addHeader key.dropLast (key.getLast?.getD "") st.document
    some (⟨document, key⟩, rest)
  | _ => do
    let (key, rest) ← readKey depthLimit cs
    let rest ← readChar '=' rest
    let rest := skipBlank rest
    let (value, rest) ← readValue (2 * rest.length + 2) depthLimit rest
    let rest ← readLineEnd rest
    let document ← addValue st.header key.dropLast (key.getLast?.getD "") value st.document
    some (⟨document, st.header⟩, rest)

/-- Reads statements to the end of the text. -/
def readStatements : (fuel : Nat) → State → Rest → Option Toml
  | 0, _, _ => none
  | fuel + 1, st, cs =>
    match skipBlank cs with
    | [] => some st.document
    | rest =>
      match readNewline rest with
      | some after => readStatements fuel st after
      | none =>
        match rest with
        | '#' :: _ =>
          match readLineEnd rest with
          | some after => readStatements fuel st after
          | none => none
        | _ =>
          match readStatement st rest with
          | some (st, after) => readStatements fuel st after
          | none => none

/-- The document a list of characters denotes. -/
def parseChars (cs : List Char) : Option Toml :=
  let cs := match cs with
    | c :: rest => if c.toNat == 0xFEFF then rest else cs
    | [] => []
  readStatements (cs.length + 1) ⟨.table .written [], []⟩ cs

/-- The document a text denotes. -/
def parse (s : String) : Option Toml := parseChars s.toList

end Upkeep.Toml
