import Conformance.Text.Blank
import Conformance.Text.Digits

/-!
# Instants in UTC

An instant is a number of seconds since 1970 and the nanoseconds of that second. A leap second is
the second before it with more than 10⁹ nanoseconds. Texts are dates of the Gregorian calendar with
a time of day, an offset and up to nine digits of a fraction; written texts are in UTC and have
none, three, six or nine digits, the fewest that are exact.
-/

namespace Conformance

structure Instant where
  /-- Whole seconds since the start of 1970. -/
  seconds : Int
  /-- Nanoseconds of the second; 10⁹ and more in a leap second. -/
  nanos : Nat
  deriving Repr, DecidableEq

namespace Instant

/-! ## The calendar -/

/-- The days in four hundred years, after which the calendar repeats. -/
def daysPerEra : Int := 146097

/-- The number of a day, counted from the first of 1970. Years are counted from March, so that the
leap day is the last one. -/
def dayNumber (year : Int) (month day : Nat) : Int :=
  let y := if month ≤ 2 then year - 1 else year
  let era := y.fdiv 400
  let yearOfEra := y.fmod 400
  let monthFromMarch : Int := (month + 9) % 12
  let dayOfYear := (153 * monthFromMarch + 2) / 5 + day - 1
  let dayOfEra := yearOfEra * 365 + yearOfEra / 4 - yearOfEra / 100 + dayOfYear
  era * daysPerEra + dayOfEra - 719468

def dateOf (number : Int) : Int × Nat × Nat :=
  let n := number + 719468
  let era := n.fdiv daysPerEra
  let dayOfEra := n.fmod daysPerEra
  let yearOfEra := (dayOfEra - dayOfEra / 1460 + dayOfEra / 36524 - dayOfEra / 146096) / 365
  let dayOfYear := dayOfEra - (365 * yearOfEra + yearOfEra / 4 - yearOfEra / 100)
  let monthFromMarch := (5 * dayOfYear + 2) / 153
  let day := dayOfYear - (153 * monthFromMarch + 2) / 5 + 1
  let month := if monthFromMarch < 10 then monthFromMarch + 3 else monthFromMarch - 9
  let year := yearOfEra + era * 400 + (if month ≤ 2 then 1 else 0)
  (year, month.toNat, day.toNat)

def isLeapYear (year : Int) : Bool :=
  year.fmod 4 = 0 && (year.fmod 100 ≠ 0 || year.fmod 400 = 0)

def daysInMonth (year : Int) (month : Nat) : Nat :=
  if month = 2 then (if isLeapYear year then 29 else 28)
  else if month = 4 || month = 6 || month = 9 || month = 11 then 30
  else 31

def firstYear : Int := -262143

def lastYear : Int := 262142

def daySeconds : Int := 86400

def firstSecond : Int := dayNumber firstYear 1 1 * daySeconds

/-- The second after the last one that an instant can be in. -/
def endSecond : Int := dayNumber (lastYear + 1) 1 1 * daySeconds

/-- The instant of a second, if it is in range. -/
def ofSeconds? (seconds : Int) (nanos : Nat) : Option Instant :=
  if firstSecond ≤ seconds && seconds < endSecond then some ⟨seconds, nanos⟩ else none

/-! ## Milliseconds -/

/-- The instant of a number of milliseconds since 1970, if it is in range. -/
def ofMillis? (millis : Int) : Option Instant :=
  ofSeconds? (millis.fdiv 1000) ((millis.fmod 1000).toNat * 1000000)

/-- The milliseconds since 1970, rounded down. -/
def millis (t : Instant) : Int := t.seconds * 1000 + (t.nanos / 1000000 : Nat)

/-! ## Writing -/

/-- A number with zeros before it, up to a width. -/
def padded (width : Nat) (n : Nat) : String :=
  let digits := toString n
  String.ofList (List.replicate (width - digits.length) '0') ++ digits

/-- A year: four digits, and a sign when four digits do not hold it. -/
def yearText (year : Int) : String :=
  if 0 ≤ year && year ≤ 9999 then padded 4 year.toNat
  else (if year < 0 then "-" else "+") ++ padded 4 year.natAbs

/-- The fraction of a second with the fewest digits that are exact. -/
def fractionText (nanos : Nat) : String :=
  if nanos = 0 then ""
  else if nanos % 1000000 = 0 then "." ++ padded 3 (nanos / 1000000)
  else if nanos % 1000 = 0 then "." ++ padded 6 (nanos / 1000)
  else "." ++ padded 9 nanos

def text (t : Instant) : String :=
  let (year, month, day) := dateOf (t.seconds.fdiv daySeconds)
  let second := (t.seconds.fmod daySeconds).toNat
  let leap := 1000000000 ≤ t.nanos
  yearText year ++ "-" ++ padded 2 month ++ "-" ++ padded 2 day
    ++ "T" ++ padded 2 (second / 3600) ++ ":" ++ padded 2 (second / 60 % 60)
    ++ ":" ++ padded 2 (second % 60 + if leap then 1 else 0)
    ++ fractionText (if leap then t.nanos - 1000000000 else t.nanos) ++ "Z"

/-! ## Reading -/

/-- A step of reading: what was read and the characters after it. -/
abbrev Step (α : Type) := List Char → Option (α × List Char)

def skipBlanks (cs : List Char) : List Char := cs.dropWhile Text.isBlank

/-- Reads at least one and at most `width` digits. -/
def digits (width : Nat) : Step Nat := fun cs =>
  let ds := (cs.take width).takeWhile Char.isDigit
  if ds = [] then none
  else some (ds.foldl (fun n d => n * 10 + (d.toNat - 48)) 0, cs.drop ds.length)

def char (c : Char) (cs : List Char) : Option (List Char) :=
  match cs with
  | d :: r => if c = d then some r else none
  | [] => none

/-- Reads a year: at most four digits, or any number of digits behind a sign. -/
def year : Step Int := fun cs =>
  match cs with
  | '-' :: r => (digits r.length r).map fun (n, r) => (-(n : Int), r)
  | '+' :: r => (digits r.length r).map fun (n, r) => ((n : Int), r)
  | _ => (digits 4 cs).map fun (n, r) => ((n : Int), r)

/-- Reads the fraction of a second: nine digits count, and further ones are skipped. -/
def fraction : Step Nat := fun cs =>
  match cs with
  | '.' :: r =>
    (digits 9 r).map fun (n, rest) =>
      (n * Nat.pow 10 (9 - (r.length - rest.length)), rest.dropWhile Char.isDigit)
  | _ => some (0, cs)

/-- Reads hours and minutes of an offset in seconds; colons and blanks may stand between them. -/
def offsetSize : Step Int := fun cs =>
  match cs with
  | a :: b :: r =>
    if a.isDigit && b.isDigit then
      match r.dropWhile fun c => c = ':' || Text.isBlank c with
      | c :: d :: rest =>
        if c.isDigit && d.isDigit && c ≤ '5' then
          let hours := (a.toNat - 48) * 10 + (b.toNat - 48)
          let minutes := (c.toNat - 48) * 10 + (d.toNat - 48)
          if hours < 24 then some (((hours * 60 + minutes) * 60 : Nat), rest) else none
        else none
      | _ => none
    else none
  | _ => none

/-- Reads the offset from UTC in seconds. -/
def offset : Step Int := fun cs =>
  match cs with
  | a :: b :: c :: r =>
    if a.toUpper = 'U' && b.toUpper = 'T' && c.toUpper = 'C' then some (0, r) else signed cs
  | _ => signed cs
where
  /-- An offset that starts with a sign, or the letter of UTC. -/
  signed : Step Int := fun cs =>
    match cs with
    | 'Z' :: r | 'z' :: r => some (0, r)
    | '+' :: r => offsetSize r
    | '-' :: r | '\u2212' :: r => (offsetSize r).map fun (n, r) => (-n, r)
    | _ => none

/-- Reads a number of at most two digits, which blanks may stand before. -/
def pair (cs : List Char) : Option (Nat × List Char) := digits 2 (skipBlanks cs)

def date : Step Int := fun cs => do
  let (y, cs) ← year (skipBlanks cs)
  let (m, cs) ← pair (← char '-' (skipBlanks cs))
  let (d, cs) ← pair (← char '-' (skipBlanks cs))
  if firstYear ≤ y && y ≤ lastYear && 1 ≤ m && m ≤ 12 && 1 ≤ d && d ≤ daysInMonth y m then
    return (dayNumber y m d, cs)
  else none

/-- Reads a time of day: its second, at most one a minute being a leap second, and nanoseconds. -/
def timeOfDay : Step (Nat × Nat) := fun cs => do
  let (h, cs) ← pair cs
  let (m, cs) ← pair (← char ':' (skipBlanks cs))
  let (s, cs) ← pair (← char ':' (skipBlanks cs))
  let (n, cs) ← fraction cs
  if h < 24 && m < 60 && s ≤ 60 then
    return ((h * 3600 + m * 60 + min s 59, if s = 60 then n + 1000000000 else n), cs)
  else none

def ofText? (text : String) : Option Instant := do
  let (day, cs) ← date text.toList
  let cs ← match cs with
    | 't' :: r | 'T' :: r | ' ' :: r => some r
    | _ => none
  let ((second, nanos), cs) ← timeOfDay cs
  let (away, cs) ← offset (skipBlanks cs)
  if skipBlanks cs = [] then ofSeconds? (day * daySeconds + second - away) nanos else none

end Instant

end Conformance
