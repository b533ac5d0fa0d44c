import Upkeep.Text.Chars
import Upkeep.Time.Span

/-!
# Instants of UTC

An instant is a second of UTC counted from the start of 1970 and a fraction of it in
nanoseconds. A fraction of a thousand million or more lies inside a leap second: the clock shows
second 60 while the count of seconds stays where it was.

## Written forms

`YYYY-MM-DDTHH:MM:SS`, then 0, 3, 6 or 9 fraction digits, whichever is the fewest that lose
nothing, then `+00:00` in reports (`Instant.text`) and `Z` in stored values
(`Instant.storedText`).

## Reading

`Instant.parse` takes what the written forms produce and the usual looser forms: one-digit
fields, blanks around separators, a blank or `t` between date and time, any number of fraction
digits (those past the ninth are dropped), and an offset from UTC instead of `Z`.
-/

namespace Upkeep

/-- An instant of UTC. -/
structure Instant where
  /-- Seconds since the start of 1970, leap seconds not counted. -/
  second : Int
  /-- Nanoseconds since `second` began; a thousand million or more inside a leap second. -/
  fraction : Nat
  deriving DecidableEq, Repr, Inhabited

namespace Instant

/-! ### Order and distance -/

/-- Whether one instant is before another. -/
def before (a b : Instant) : Bool :=
  a.second < b.second || (a.second == b.second && a.fraction < b.fraction)

/-- Seconds in one day, leap seconds not counted. -/
def daySeconds : Int := 86400

/-- The day an instant falls on, counted from the first of January 1970. -/
def day (a : Instant) : Int := a.second / daySeconds

/-- The second of its day an instant falls on. -/
def secondOfDay (a : Instant) : Int := a.second % daySeconds

/-- Nanoseconds from `b` to `a`. A leap second on the way counts when the earlier time of day is
inside one. -/
def nanosSince (a b : Instant) : Int :=
  let leap : Int :=
    if b.secondOfDay < a.secondOfDay then (if 1000000000 ≤ b.fraction then 1 else 0)
    else if a.secondOfDay < b.secondOfDay then (if 1000000000 ≤ a.fraction then -1 else 0)
    else 0
  (a.second - b.second + leap) * 1000000000 + ((a.fraction : Int) - (b.fraction : Int))

/-- The length of time from `b` to `a`, unless it is negative. -/
def since? (a b : Instant) : Option Span :=
  let n := a.nanosSince b
  if n < 0 then none else some ⟨n.toNat⟩

/-- The instant a whole number of seconds earlier. -/
def minusSeconds (a : Instant) (n : Int) : Instant :=
  { a with second := a.second - n }

/-- The instant a length of time later, outside leap seconds. -/
def plus (a : Instant) (s : Span) : Instant :=
  let total := a.fraction + s.nanos
  ⟨a.second + ((total / Span.perSecond : Nat) : Int), total % Span.perSecond⟩

/-! ### The calendar -/

/-- Whether a year has 366 days. -/
def isLeapYear (y : Int) : Bool :=
  y % 4 == 0 && (y % 100 != 0 || y % 400 == 0)

/-- Days in a month of a year. -/
def monthDays (y : Int) (m : Nat) : Nat :=
  match m with
  | 2 => if isLeapYear y then 29 else 28
  | 4 | 6 | 9 | 11 => 30
  | _ => 31

/-- The day of a date, counted from the first of January 1970. Years start in March here, so the
leap day is the last one of its year. -/
def dayOfDate (y : Int) (m d : Nat) : Int :=
  let y := if m ≤ 2 then y - 1 else y
  let era := y / 400
  let yearOfEra := y % 400
  let monthFromMarch : Int := ((m + 9) % 12 : Nat)
  let dayOfYear := (153 * monthFromMarch + 2) / 5 + (d : Int) - 1
  let dayOfEra := yearOfEra * 365 + yearOfEra / 4 - yearOfEra / 100 + dayOfYear
  era * 146097 + dayOfEra - 719468

/-- The year, month and day of the month of a day counted from the first of January 1970. -/
def dateOfDay (n : Int) : Int × Nat × Nat :=
  let z := n + 719468
  let era := z / 146097
  let dayOfEra := z % 146097
  let yearOfEra := (dayOfEra - dayOfEra / 1460 + dayOfEra / 36524 - dayOfEra / 146096) / 365
  let dayOfYear := dayOfEra - (365 * yearOfEra + yearOfEra / 4 - yearOfEra / 100)
  let monthFromMarch := (5 * dayOfYear + 2) / 153
  let d := dayOfYear - (153 * monthFromMarch + 2) / 5 + 1
  let m := if monthFromMarch < 10 then monthFromMarch + 3 else monthFromMarch - 9
  let y := yearOfEra + era * 400 + (if m ≤ 2 then 1 else 0)
  (y, m.toNat, d.toNat)

/-- Years a date can have. -/
def yearInRange (y : Int) : Bool := -262143 ≤ y && y ≤ 262142

/-- The instant of a date and a time of day, when there is such a date. Second 60 is a leap
second. -/
def ofFields (y : Int) (month dayOfMonth hour minute sec nanos : Nat) : Option Instant :=
  if !yearInRange y || month < 1 || 12 < month || dayOfMonth < 1 ||
      monthDays y month < dayOfMonth || 23 < hour || 59 < minute || 60 < sec then none
  else
    let whole := if sec == 60 then 59 else sec
    let fraction := if sec == 60 then nanos + 1000000000 else nanos
    let clock : Nat := hour * 3600 + minute * 60 + whole
    some ⟨dayOfDate y month dayOfMonth * daySeconds + (clock : Int), fraction⟩

/-! ### Writing -/

/-- A year: four digits, or a sign and at least four digits outside `0` to `9999`. -/
def yearText (y : Int) : String :=
  if 0 ≤ y && y ≤ 9999 then Text.padded 4 y.toNat
  else (if y < 0 then "-" else "+") ++ Text.padded 4 y.natAbs

/-- The fraction of a second: no digits, or three, six or nine. -/
def fractionText (nanos : Nat) : String :=
  if nanos == 0 then ""
  else if nanos % 1000000 == 0 then "." ++ Text.padded 3 (nanos / 1000000)
  else if nanos % 1000 == 0 then "." ++ Text.padded 6 (nanos / 1000)
  else "." ++ Text.padded 9 nanos

/-- Date and time of day, without the offset. -/
def clockText (a : Instant) : String :=
  let (y, m, d) := dateOfDay a.day
  let clock := a.secondOfDay.toNat
  let inLeap := 1000000000 ≤ a.fraction
  let sec := clock % 60 + (if inLeap then 1 else 0)
  let nanos := if inLeap then a.fraction - 1000000000 else a.fraction
  yearText y ++ "-" ++ Text.padded 2 m ++ "-" ++ Text.padded 2 d ++ "T" ++
    Text.padded 2 (clock / 3600) ++ ":" ++ Text.padded 2 (clock / 60 % 60) ++ ":" ++
    Text.padded 2 sec ++ fractionText nanos

/-- The form used in reports and messages. -/
def text (a : Instant) : String := a.clockText ++ "+00:00"

/-- The form used in stored values. -/
def storedText (a : Instant) : String := a.clockText ++ "Z"

/-! ### Reading -/

/-- Reads up to `most` digits and at least one, as a number, with what follows. -/
def readDigits (most : Nat) (cs : List Char) : Option (Nat × List Char) :=
  let digits := (cs.take most).takeWhile Char.isDigit
  if digits.isEmpty then none
  else some (digits.foldl (fun n c => n * 10 + (c.toNat - 48)) 0, cs.drop digits.length)

/-- A number field: blanks, then one or two digits. -/
def readField (cs : List Char) : Option (Nat × List Char) :=
  readDigits 2 (Text.trimStart cs)

/-- The year: up to four digits, or a sign and any number of digits. -/
def readYear (cs : List Char) : Option (Int × List Char) :=
  match Text.trimStart cs with
  | '+' :: rest => (readDigits rest.length rest).map (fun (n, r) => ((n : Int), r))
  | '-' :: rest => (readDigits rest.length rest).map (fun (n, r) => (-(n : Int), r))
  | rest => (readDigits 4 rest).map (fun (n, r) => ((n : Int), r))

/-- A separator with blanks before it. -/
def readSeparator (c : Char) (cs : List Char) : Option (List Char) :=
  match Text.trimStart cs with
  | d :: rest => if d == c then some rest else none
  | [] => none

/-- The fraction of a second, zero when there is no point. -/
def readFraction : List Char → Option (Nat × List Char)
  | '.' :: rest =>
    (readDigits 9 rest).map (fun (n, after) =>
      let used := rest.length - after.length
      (n * Nat.pow 10 (9 - used), after.dropWhile Char.isDigit))
  | cs => some (0, cs)

/-- Two digits, exactly. -/
def readPair : List Char → Option (Nat × List Char)
  | a :: b :: rest =>
    if a.isDigit && b.isDigit then some ((a.toNat - 48) * 10 + (b.toNat - 48), rest) else none
  | _ => none

/-- Hours and minutes of an offset, in seconds. -/
def readOffsetBody (cs : List Char) : Option (Nat × List Char) := do
  let (hours, rest) ← readPair cs
  let rest := rest.dropWhile (fun c => c == ':' || Text.isBlank c)
  let (minutes, rest) ← readPair rest
  if 59 < minutes then none else some (hours * 3600 + minutes * 60, rest)

/-- The offset from UTC, in seconds: `Z`, `UTC`, or a signed number of hours and minutes below a
day. -/
def readOffset (cs : List Char) : Option (Int × List Char) :=
  match cs with
  | u :: t :: c :: rest =>
    if u.toLower == 'u' && t.toLower == 't' && c.toLower == 'c' then some (0, rest)
    else readSigned cs
  | _ => readSigned cs
where
  /-- `Z`, or a sign, hours and minutes. -/
  readSigned : List Char → Option (Int × List Char)
    | 'Z' :: rest => some (0, rest)
    | 'z' :: rest => some (0, rest)
    | '+' :: rest => (readOffsetBody rest).bind (fun (n, r) =>
        if n < 86400 then some ((n : Int), r) else none)
    | '-' :: rest => (readOffsetBody rest).bind (fun (n, r) =>
        if n < 86400 then some (-(n : Int), r) else none)
    | '−' :: rest => (readOffsetBody rest).bind (fun (n, r) =>
        if n < 86400 then some (-(n : Int), r) else none)
    | _ => none

/-- Between date and time: a blank or the letter T in either case. -/
def readDateEnd : List Char → Option (List Char)
  | 'T' :: rest => some rest
  | 't' :: rest => some rest
  | ' ' :: rest => some rest
  | _ => none

/-- Reads an instant, converted to UTC. -/
def parseChars (cs : List Char) : Option Instant := do
  let (y, cs) ← readYear cs
  let cs ← readSeparator '-' cs
  let (month, cs) ← readField cs
  let cs ← readSeparator '-' cs
  let (dayOfMonth, cs) ← readField cs
  let cs ← readDateEnd cs
  let (hour, cs) ← readField cs
  let cs ← readSeparator ':' cs
  let (minute, cs) ← readField cs
  let cs ← readSeparator ':' cs
  let (sec, cs) ← readField cs
  let (nanos, cs) ← readFraction cs
  let (offset, cs) ← readOffset (Text.trimStart cs)
  if !(Text.trimStart cs).isEmpty then none
  else
    let here ← ofFields y month dayOfMonth hour minute sec nanos
    let shifted := here.minusSeconds offset
    if yearInRange (dateOfDay shifted.day).1 then some shifted else none

/-- Reads an instant, converted to UTC. -/
def parse (s : String) : Option Instant := parseChars s.toList

end Instant

end Upkeep
