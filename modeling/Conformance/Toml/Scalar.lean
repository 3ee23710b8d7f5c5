import Conformance.Instant
import Conformance.Text.Digits
import Conformance.Toml.Table

/-!
# Scalars of TOML

Strings in four styles, numbers, dates and times. Every reader takes what it reads off the front of
a text and gives the characters after it.
-/

namespace Conformance.Toml

/-- A step of reading: what was read and the characters after it. -/
abbrev Step (α : Type) := List Char → Option (α × List Char)

/-- A character that may stand for itself in a string or a comment: anything but a control. -/
def isPlain (c : Char) : Bool := c = '\t' || (0x20 ≤ c.toNat && c.toNat ≠ 0x7F)

def isBlank (c : Char) : Bool := c = ' ' || c = '\t'

/-- The text after a line break that it starts with. -/
def lineBreak? : List Char → Option (List Char)
  | '\n' :: r => some r
  | '\r' :: '\n' :: r => some r
  | _ => none

/-! ## Strings -/

/-- The character of a number in hexadecimal digits. -/
def scalarValue? (digits : List Char) : Option Char := do
  let n ← Digits.natural? 16 digits
  if n.isValidChar then some (Char.ofNat n) else none

/-- The character an escape stands for, and how many characters after the backslash it takes. -/
def escape? : List Char → Option (Char × Nat)
  | 'u' :: a :: b :: c :: d :: _ => (scalarValue? [a, b, c, d]).map (·, 5)
  | 'U' :: r => if r.length < 8 then none else (scalarValue? (r.take 8)).map (·, 9)
  | '"' :: _ => some ('"', 1)
  | '\\' :: _ => some ('\\', 1)
  | 'b' :: _ => some (Char.ofNat 8, 1)
  | 't' :: _ => some ('\t', 1)
  | 'n' :: _ => some ('\n', 1)
  | 'f' :: _ => some (Char.ofNat 12, 1)
  | 'r' :: _ => some ('\r', 1)
  | _ => none

/-- How many blanks and line breaks a text starts with. -/
def blankRun : List Char → Nat
  | '\r' :: '\n' :: r => blankRun r + 2
  | c :: r => if isBlank c || c = '\n' then blankRun r + 1 else 0
  | [] => 0

/-- How many characters after a backslash at the end of a line are left out: the blanks and line
breaks up to the next other character. -/
def lineEnd? (cs : List Char) : Option Nat :=
  let blanks := (cs.takeWhile isBlank).length
  (lineBreak? (cs.drop blanks)).map fun _ => blankRun cs

/-- The text in double quotes, from behind the first one. `skip` counts characters that were read
ahead. -/
def basicBody : Nat → Step (List Char)
  | skip + 1, _ :: r => basicBody skip r
  | 0, '"' :: r => some ([], r)
  | 0, '\\' :: r =>
    match escape? r with
    | some (c, n) => (basicBody n r).map fun p => (c :: p.1, p.2)
    | none => none
  | 0, c :: r => if isPlain c then (basicBody 0 r).map fun p => (c :: p.1, p.2) else none
  | _, [] => none

/-- The text in single quotes, from behind the first one. -/
def literalBody : Step (List Char)
  | '\'' :: r => some ([], r)
  | c :: r => if isPlain c then (literalBody r).map fun p => (c :: p.1, p.2) else none
  | [] => none

/-- The quotes behind three of them that end a string of several lines: up to two more belong to the
text. -/
def closing (quote : Char) : List Char → List Char × List Char
  | a :: b :: r =>
    if a = quote && b = quote then ([quote, quote], r)
    else if a = quote then ([quote], b :: r)
    else ([], a :: b :: r)
  | [a] => if a = quote then ([quote], []) else ([], [a])
  | [] => ([], [])

/-- The text in three double quotes, from behind the first three. A line break is one character. -/
def basicLines : Nat → Step (List Char)
  | skip + 1, _ :: r => basicLines skip r
  | 0, '"' :: '"' :: '"' :: r => some (closing '"' r)
  | 0, '\\' :: r =>
    match lineEnd? r with
    | some n => basicLines n r
    | none =>
      match escape? r with
      | some (c, n) => (basicLines n r).map fun p => (c :: p.1, p.2)
      | none => none
  | 0, '\r' :: '\n' :: r => (basicLines 0 r).map fun p => ('\n' :: p.1, p.2)
  | 0, c :: r =>
    if c = '\n' || isPlain c then (basicLines 0 r).map fun p => (c :: p.1, p.2) else none
  | _, [] => none

/-- The text in three single quotes, from behind the first three. A line break is one character. -/
def literalLines : Step (List Char)
  | '\'' :: '\'' :: '\'' :: r => some (closing '\'' r)
  | '\r' :: '\n' :: r => (literalLines r).map fun p => ('\n' :: p.1, p.2)
  | c :: r =>
    if c = '\n' || isPlain c then (literalLines r).map fun p => (c :: p.1, p.2) else none
  | [] => none

/-- A text without the line break it may start with. -/
def dropLineBreak (cs : List Char) : List Char := (lineBreak? cs).getD cs

def string? : Step String := fun cs =>
  let body : Option (List Char × List Char) := match cs with
    | '"' :: '"' :: '"' :: r => basicLines 0 (dropLineBreak r)
    | '"' :: r => basicBody 0 r
    | '\'' :: '\'' :: '\'' :: r => literalLines (dropLineBreak r)
    | '\'' :: r => literalBody r
    | _ => none
  body.map fun p => (String.ofList p.1, p.2)

/-! ## Numbers -/

/-- Digits that go on, with single underscores between them. -/
def moreDigits (isDigit : Char → Bool) : List Char → List Char × List Char
  | '_' :: c :: r =>
    if isDigit c then
      let (ds, rest) := moreDigits isDigit r
      (c :: ds, rest)
    else ([], '_' :: c :: r)
  | c :: r =>
    if isDigit c then
      let (ds, rest) := moreDigits isDigit r
      (c :: ds, rest)
    else ([], c :: r)
  | [] => ([], [])

/-- One or more digits, with single underscores between them. -/
def digits? (isDigit : Char → Bool) : Step (List Char)
  | c :: r =>
    if isDigit c then
      let (ds, rest) := moreDigits isDigit r
      some (c :: ds, rest)
    else none
  | [] => none

def sign? : List Char → List Char × List Char
  | '-' :: r => (['-'], r)
  | '+' :: r => (['+'], r)
  | r => ([], r)

/-- The digits of a decimal whole number with its sign. No digit follows a leading zero. -/
def decimal? : Step (List Char) := fun cs =>
  let (sign, r) := sign? cs
  match r with
  | '0' :: r => some (sign ++ ['0'], r)
  | r => (digits? Digits.isDecimal r).map fun p => (sign ++ p.1, p.2)

def exponent? : Step (List Char)
  | c :: r =>
    if c = 'e' || c = 'E' then
      let (sign, r) := sign? r
      (digits? Digits.isDecimal r).map fun p => ('e' :: sign ++ p.1, p.2)
    else none
  | [] => none

/-- The places behind the point of a number. -/
def places? : Step (List Char)
  | '.' :: r => (digits? Digits.isDecimal r).map fun p => ('.' :: p.1, p.2)
  | _ => none

/-- A number with places, an exponent, or both; it may not be too great. -/
def float? : Step Value := fun cs => do
  let (whole, r) ← decimal? cs
  let (fraction, r) := (places? r).getD ([], r)
  let (power, r) := (exponent? r).getD ([], r)
  if fraction.isEmpty && power.isEmpty then none
  let x ← Binary64.ofChars? (whole ++ fraction ++ power)
  if x = .infinite false then none else some (.float x, r)

/-- Infinity and the value that is no number, with an optional sign. -/
def special? : Step Value := fun cs =>
  let (sign, r) := sign? cs
  match r with
  | 'i' :: 'n' :: 'f' :: r => some (.float (.infinite (sign = ['-'])), r)
  | 'n' :: 'a' :: 'n' :: r => some (.float .nan, r)
  | _ => none

/-- A whole number of 64 bits with a sign, read from its digits. -/
def whole? (base : Nat) (p : List Char × List Char) : Option (Value × List Char) :=
  (Digits.signed? base 64 p.1).map fun n => (.int n, p.2)

def isDigitOf (base : Nat) (c : Char) : Bool := (Digits.value? c).any (· < base)

/-- A whole number, in decimal with a sign, or in another base behind its mark. -/
def int? : Step Value
  | '0' :: 'x' :: r => (digits? (isDigitOf 16) r).bind (whole? 16)
  | '0' :: 'o' :: r => (digits? (isDigitOf 8) r).bind (whole? 8)
  | '0' :: 'b' :: r => (digits? (isDigitOf 2) r).bind (whole? 2)
  | cs => (decimal? cs).bind (whole? 10)

/-! ## Dates and times -/

/-- A number of exactly so many digits. -/
def fixed? (width : Nat) : Step Nat := fun cs => do
  let ds := cs.take width
  if ds.length = width && ds.all Digits.isDecimal then
    return (← Digits.natural? 10 ds, cs.drop width)
  else none

/-- A number of two digits within bounds. -/
def pair? (low high : Nat) : Step Nat := fun cs => do
  let (n, r) ← fixed? 2 cs
  if low ≤ n && n ≤ high then some (n, r) else none

def date? : Step String := fun cs => do
  let (year, r) ← fixed? 4 cs
  let (month, r) ← pair? 1 12 (← Instant.char '-' r)
  let (day, r) ← pair? 1 31 (← Instant.char '-' r)
  if Instant.daysInMonth year month < day then none
  return (Instant.padded 4 year ++ "-" ++ Instant.padded 2 month ++ "-" ++ Instant.padded 2 day, r)

/-- The fraction of a second, of which nine digits count, without zeros at its end. -/
def fraction? : Step String := fun cs => do
  let r ← Instant.char '.' cs
  let ds := r.takeWhile Digits.isDecimal
  if ds.isEmpty then none
  let kept := ((ds.take 9).reverse.dropWhile (· = '0')).reverse
  return (if kept.isEmpty then "" else "." ++ String.ofList kept, r.drop ds.length)

def time? : Step String := fun cs => do
  let (hour, r) ← pair? 0 23 cs
  let (minute, r) ← pair? 0 59 (← Instant.char ':' r)
  let (second, r) ← pair? 0 60 (← Instant.char ':' r)
  let (fraction, r) := (fraction? r).getD ("", r)
  return (Instant.padded 2 hour ++ ":" ++ Instant.padded 2 minute ++ ":" ++ Instant.padded 2 second
    ++ fraction, r)

/-- The offset of a time from that of the zero meridian. -/
def offset? : Step String := fun cs => do
  match cs with
  | 'Z' :: r | 'z' :: r => return ("Z", r)
  | c :: r =>
    if c ≠ '+' && c ≠ '-' then none
    let (hour, r) ← pair? 0 23 r
    let (minute, r) ← pair? 0 59 (← Instant.char ':' r)
    let sign := if c = '-' && (hour, minute) ≠ (0, 0) then "-" else "+"
    return (sign ++ Instant.padded 2 hour ++ ":" ++ Instant.padded 2 minute, r)
  | [] => none

/-- The time that follows a date, with its offset. -/
def timeOfDate? : Step String := fun cs => do
  match cs with
  | c :: r =>
    if c ≠ 'T' && c ≠ 't' && c ≠ ' ' then none
    let (time, r) ← time? r
    let (offset, r) := (offset? r).getD ("", r)
    return ("T" ++ time ++ offset, r)
  | [] => none

/-- A date, a time, or both. -/
def moment? : Step Value := fun cs =>
  match date? cs with
  | some (date, r) =>
    let (time, r) := (timeOfDate? r).getD ("", r)
    some (.moment (date ++ time), r)
  | none => (time? cs).map fun p => (.moment p.1, p.2)

/-! ## Scalars -/

/-- A word that stands for a value. -/
def word? : Step Value
  | 't' :: 'r' :: 'u' :: 'e' :: r => some (.bool true, r)
  | 'f' :: 'a' :: 'l' :: 's' :: 'e' :: r => some (.bool false, r)
  | _ => none

/-- A value that holds no other values. -/
def scalar? : Step Value := fun cs =>
  match cs with
  | '"' :: _ | '\'' :: _ => (string? cs).map fun p => (.text p.1, p.2)
  | cs => [moment?, float?, special?, int?, word?].findSome? fun reader => reader cs

end Conformance.Toml
