import Likeness.Text.Blank

/-!
# Likeness.Calendar

Moments in universal time, and their RFC 3339 text. Days are counted in the Gregorian calendar from
the first of January 1970. A leap second is kept as the second before it with more than a second of
nanoseconds.
-/

namespace Likeness

/-- Seconds since the start of 1970, and nanoseconds on top. -/
structure Moment where
  seconds : Int
  nanoseconds : Nat
deriving DecidableEq, Inhabited

namespace Moment

/-- What can be wrong with the text of a moment. -/
inductive Fault where
  | tooShort
  | invalid
  | outOfRange
  | impossible
  | tooLong
deriving DecidableEq

namespace Fault

/-- What is said about a text that is no moment. -/
def message : Fault → String
  | .tooShort => "premature end of input"
  | .invalid => "input contains invalid characters"
  | .outOfRange => "input is out of range"
  | .impossible => "no possible date and time matching input"
  | .tooLong => "trailing input"

end Fault

/-! ### Days -/

/-- The leap years of the Gregorian calendar. -/
def isLeapYear (year : Int) : Bool := year % 4 = 0 && (year % 100 ≠ 0 || year % 400 = 0)

/-- How many days a month has. -/
def daysInMonth (year : Int) (month : Nat) : Nat :=
  match month with
  | 2 => if isLeapYear year then 29 else 28
  | 4 | 6 | 9 | 11 => 30
  | _ => 31

/-- Days from the start of 1970 to a date. Years are taken to start in March, so that the leap day
comes last and the months follow a regular pattern. -/
def dayNumber (year : Int) (month day : Nat) : Int :=
  let y := if month ≤ 2 then year - 1 else year
  let m : Int := (month + 9) % 12
  365 * y + y / 4 - y / 100 + y / 400 + (153 * m + 2) / 5 + day - 1 - 719468

/-- Year, month and day of a day number. -/
def dateOf (days : Int) : Int × Nat × Nat :=
  let z := days + 719468
  let era := z / 146097
  let dayOfEra := z % 146097
  let yearOfEra := (dayOfEra - dayOfEra / 1460 + dayOfEra / 36524 - dayOfEra / 146096) / 365
  let dayOfYear := dayOfEra - (365 * yearOfEra + yearOfEra / 4 - yearOfEra / 100)
  let m := (5 * dayOfYear + 2) / 153
  let day := dayOfYear - (153 * m + 2) / 5 + 1
  let month := if m < 10 then m + 3 else m - 9
  let year := yearOfEra + era * 400 + if month ≤ 2 then 1 else 0
  (year, month.toNat, day.toNat)

/-- The years that a moment can lie in. -/
def firstYear : Int := -262143

/-- The last of these years. -/
def lastYear : Int := 262142

/-- Whether a count of seconds leads to a day of these years. -/
def reachable (seconds : Int) : Bool :=
  dayNumber firstYear 1 1 ≤ seconds / 86400 && seconds / 86400 ≤ dayNumber lastYear 12 31

/-! ### Writing -/

/-- A number with zeros in front, up to a width. -/
def padded (width n : Nat) : String :=
  let digits := toString n
  String.ofList (List.replicate (width - digits.length) '0') ++ digits

/-- Years of four digits stand alone, others carry a sign. -/
def yearText (year : Int) : String :=
  if 0 ≤ year ∧ year ≤ 9999 then padded 4 year.toNat
  else (if year < 0 then "-" else "+") ++ padded 4 year.natAbs

/-- No fraction, or as many of three, six and nine digits as it takes. -/
def fractionText (nanoseconds : Nat) : String :=
  if nanoseconds = 0 then ""
  else if nanoseconds % 1000000 = 0 then "." ++ padded 3 (nanoseconds / 1000000)
  else if nanoseconds % 1000 = 0 then "." ++ padded 6 (nanoseconds / 1000)
  else "." ++ padded 9 nanoseconds

/-- Date and time, followed by `zone`. -/
def textWith (zone : String) (t : Moment) : String :=
  let (year, month, day) := dateOf (t.seconds / 86400)
  let second := (t.seconds % 86400).toNat
  -- A leap second shows as second 60.
  let carried := t.nanoseconds / 1000000000
  yearText year ++ "-" ++ padded 2 month ++ "-" ++ padded 2 day ++ "T" ++
    padded 2 (second / 3600) ++ ":" ++ padded 2 (second / 60 % 60) ++ ":" ++
    padded 2 (second % 60 + carried) ++ fractionText (t.nanoseconds % 1000000000) ++ zone

/-- The text of a moment in records. -/
def text (t : Moment) : String := t.textWith "Z"

/-- The text of a moment with its offset from universal time spelled out. -/
def textWithOffset (t : Moment) : String := t.textWith "+00:00"

/-! ### Reading -/

/-- A reader of the head of a text. -/
abbrev Scan (α : Type) := List Char → Except Fault (α × List Char)

/-- Whether a character is a decimal digit. -/
def isDigit (c : Char) : Bool := '0' ≤ c && c ≤ '9'

/-- The number of decimal digits. -/
def digitsValue (cs : List Char) : Nat := cs.foldl (fun n c => 10 * n + (c.toNat - 48)) 0

/-- One digit up to `most`. -/
def number (most : Nat) : Scan Nat := fun cs =>
  let digits := (cs.take most).takeWhile isDigit
  if digits = [] then .error (if cs = [] then .tooShort else .invalid)
  else .ok (digitsValue digits, cs.drop digits.length)

/-- A number after white space, inside bounds. -/
def bounded (low high : Nat) : Scan Nat := fun cs => do
  let (n, rest) ← number 2 (Text.trimStart cs)
  if n < low ∨ high < n then throw .outOfRange
  return (n, rest)

/-- A year: four digits at the most, or as many as there are after a sign. -/
def scanYear : Scan Int := fun cs => do
  let cs := Text.trimStart cs
  let (year, rest) ← match cs with
    | '-' :: r => do
      let (n, rest) ← number r.length.succ r
      pure (-(n : Int), rest)
    | '+' :: r => do
      let (n, rest) ← number r.length.succ r
      pure ((n : Int), rest)
    | _ => do
      let (n, rest) ← number 4 cs
      pure ((n : Int), rest)
  if year < -0x80000000 ∨ 0x80000000 ≤ year then throw .outOfRange
  return (year, rest)

/-- A separator after white space. -/
def separator (c : Char) : Scan Unit := fun cs =>
  match Text.trimStart cs with
  | [] => .error .tooShort
  | d :: rest => if d = c then .ok ((), rest) else .error .invalid

/-- Up to nine digits after a point count; the others are passed over. -/
def scanFraction : Scan Nat := fun cs =>
  match cs with
  | '.' :: rest => do
    let digits := (rest.take 9).takeWhile isDigit
    let (n, after) ← number 9 rest
    return (n * Nat.pow 10 (9 - digits.length), after.dropWhile isDigit)
  | _ => .ok (0, cs)

/-- Two digits, the first of them no greater than `most`. -/
def twoDigits (most : Char) : Scan Nat := fun cs =>
  match cs with
  | a :: b :: rest =>
    if isDigit a ∧ isDigit b then
      if most < a then .error .outOfRange else .ok (digitsValue [a, b], rest)
    else .error .invalid
  | [a] => .error (if a.utf8Size < 2 then .tooShort else .invalid)
  | [] => .error .tooShort

/-- An offset from universal time, in seconds: `Z`, the letters `UTC`, or a sign, hours and
minutes with colons or white space between them. -/
def scanOffset : Scan Int := fun cs =>
  match cs with
  | 'Z' :: rest => .ok (0, rest)
  | 'z' :: rest => .ok (0, rest)
  | _ =>
    if (cs.take 3).map Char.toUpper = ['U', 'T', 'C'] then .ok (0, cs.drop 3)
    else do
      let (sign, rest) ← match cs with
        | [] => throw .tooShort
        | '+' :: rest => pure (1, rest)
        | '-' :: rest => pure (-1, rest)
        | '−' :: rest => pure (-1, rest)
        | _ => throw .invalid
      let (hours, rest) ← twoDigits '9' rest
      let (minutes, rest) ← twoDigits '5' (rest.dropWhile fun c => c = ':' || Text.isSpace c)
      return (sign * ((hours * 3600 + minutes * 60 : Nat) : Int), rest)

/-- The moment that a text names. White space may stand between the parts. -/
def parse (text : String) : Except Fault Moment := do
  let (year, cs) ← scanYear text.toList
  let (_, cs) ← separator '-' cs
  let (month, cs) ← bounded 1 12 cs
  let (_, cs) ← separator '-' cs
  let (day, cs) ← bounded 1 31 cs
  let cs ← match cs with
    | [] => throw .tooShort
    | c :: rest => if c = 'T' ∨ c = 't' ∨ c = ' ' then pure rest else throw .invalid
  let (hour, cs) ← bounded 0 23 cs
  let (_, cs) ← separator ':' cs
  let (minute, cs) ← bounded 0 59 cs
  let (_, cs) ← separator ':' cs
  let (second, cs) ← bounded 0 60 cs
  let (fraction, cs) ← scanFraction cs
  let (offset, cs) ← scanOffset (Text.trimStart cs)
  if Text.trimStart cs ≠ [] then throw .tooLong
  if year < firstYear ∨ lastYear < year ∨ daysInMonth year month < day then throw .outOfRange
  if offset ≤ -86400 ∨ 86400 ≤ offset then throw .outOfRange
  let leap := second / 60
  let seconds := dayNumber year month day * 86400 + hour * 3600 + minute * 60 + second - leap - offset
  -- The local date may lie at one end of the years and the moment beyond it.
  if !reachable seconds then throw .impossible
  return ⟨seconds, fraction + leap * 1000000000⟩

end Moment

end Likeness
