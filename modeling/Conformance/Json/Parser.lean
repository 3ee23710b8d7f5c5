import Conformance.Json

/-!
# Reading JSON text

`parse?` reads standard JSON and refuses anything else: a number too large for a binary64, half a
surrogate pair, a control character inside a string, more than `depthLimit` levels of nesting.
Objects keep their members as they were written, repeated keys too; `read?` puts them in normal
form. Whole numbers that a word of 64 bits holds stay exact, every other number is binary64.
-/

namespace Conformance.Json

/-- Arrays and objects may be nested up to one less than this. -/
def depthLimit : Nat := 128

def isBlank (c : Char) : Bool := c = ' ' || c = '\n' || c = '\t' || c = '\r'

def skip (cs : List Char) : List Char := cs.dropWhile isBlank

/-! ## Strings -/

/-- The number of four hexadecimal digits. -/
def unit? (a b c d : Char) : Option Nat := do
  let n ← Digits.natural? 16 [a, b, c, d]
  return n

/-- The character an escape stands for, and how many characters after the backslash it takes. -/
def escape? : List Char → Option (Char × Nat)
  | 'u' :: a :: b :: c :: d :: r => do
    let n ← unit? a b c d
    if n < 0xD800 || 0xDFFF < n then return (Char.ofNat n, 5)
    else if n < 0xDC00 then
      match r with
      | '\\' :: 'u' :: a₂ :: b₂ :: c₂ :: d₂ :: _ =>
        let m ← unit? a₂ b₂ c₂ d₂
        if 0xDC00 ≤ m && m ≤ 0xDFFF then
          return (Char.ofNat (0x10000 + (n - 0xD800) * 0x400 + (m - 0xDC00)), 11)
        else none
      | _ => none
    else none
  | e :: _ =>
    if e = '"' || e = '\\' || e = '/' then some (e, 1)
    else if e = 'b' then some (Char.ofNat 8, 1)
    else if e = 'f' then some (Char.ofNat 12, 1)
    else if e = 'n' then some ('\n', 1)
    else if e = 'r' then some ('\r', 1)
    else if e = 't' then some ('\t', 1)
    else none
  | [] => none

/-- The characters up to the closing quote, and the text after it. -/
def stringBody : List Char → Option (List Char × List Char)
  | [] => none
  | c :: r =>
    if c = '"' then some ([], r)
    else if c = '\\' then
      match escape? r with
      | some (e, n) => (stringBody (r.drop n)).map fun p => (e :: p.1, p.2)
      | none => none
    else if c.toNat < 0x20 then none
    else (stringBody r).map fun p => (c :: p.1, p.2)
termination_by cs => cs.length
decreasing_by all_goals (simp only [List.length_drop, List.length_cons]; omega)

/-! ## Numbers -/

/-- The digits at the start of a text, and the text after them. -/
def digitRun (cs : List Char) : List Char × List Char :=
  (cs.takeWhile Digits.isDecimal, cs.dropWhile Digits.isDecimal)

/-- The value of a number without a fraction and without an exponent. -/
def wholeNumber (negative : Bool) (n : Nat) : Number :=
  if negative then
    if 0 < n && n ≤ 0x8000000000000000 then .int (-(n : Int)) else .float (Binary64.ofDecimal true n 0)
  else if n < 0x10000000000000000 then .int n
  else .float (Binary64.ofDecimal false n 0)

/-- The digits after a point, if there is one: at least one of them. -/
def fraction? : List Char → Option (Option (List Char) × List Char)
  | '.' :: r =>
    let (ds, rest) := digitRun r
    if ds.isEmpty then none else some (some ds, rest)
  | r => some (none, r)

/-- The exponent, if there is one: an optional sign and at least one digit. -/
def exponent? : List Char → Option (Option Int × List Char)
  | c :: r =>
    if c = 'e' || c = 'E' then
      let (negative, r) := match r with
        | '-' :: r => (true, r)
        | '+' :: r => (false, r)
        | r => (false, r)
      let (ds, rest) := digitRun r
      match Digits.natural? 10 ds with
      | some n => some (some (if negative then -(n : Int) else n), rest)
      | none => none
    else some (none, c :: r)
  | [] => some (none, [])

/-- A number without its sign, and the text after it. No digit may follow a leading zero. -/
def magnitude? (negative : Bool) (cs : List Char) : Option (Number × List Char) := do
  let (whole, r) := digitRun cs
  let n ← Digits.natural? 10 whole
  if whole.head? = some '0' && 1 < whole.length then none
  let (places, r) ← fraction? r
  let (power, r) ← exponent? r
  match places, power with
  | none, none => return (wholeNumber negative n, r)
  | _, _ =>
    let digits := whole ++ places.getD []
    let value ← Digits.natural? 10 digits
    let x := Binary64.ofDecimal negative value (power.getD 0 - (places.getD []).length)
    if x.isFinite then return (.float x, r) else none

def number? : List Char → Option (Number × List Char)
  | '-' :: r => magnitude? true r
  | r => magnitude? false r

/-! ## Values -/

/-- The text after a word that it starts with. -/
def word? (word : List Char) (cs : List Char) : Option (List Char) := word.isPrefixOf? cs

mutual

/-- A value and the text after it. The first argument bounds the steps, the second the levels. -/
def value : Nat → Nat → List Char → Option (Json × List Char)
  | 0, _, _ => none
  | fuel + 1, depth, cs =>
    match skip cs with
    | [] => none
    | c :: r =>
      if c = 'n' then (word? "ull".toList r).map (Json.null, ·)
      else if c = 't' then (word? "rue".toList r).map (Json.bool true, ·)
      else if c = 'f' then (word? "alse".toList r).map (Json.bool false, ·)
      else if c = '"' then (stringBody r).map fun p => (.str (String.ofList p.1), p.2)
      else if c = '[' then
        if depth ≤ 1 then none
        else
          match skip r with
          | ']' :: rest => some (.arr [], rest)
          | r => (elements fuel (depth - 1) r).map fun p => (.arr p.1, p.2)
      else if c = '\x7b' then
        if depth ≤ 1 then none
        else
          match skip r with
          | '\x7d' :: rest => some (.obj [], rest)
          | r => (members fuel (depth - 1) r).map fun p => (.obj p.1, p.2)
      else (number? (c :: r)).map fun p => (.num p.1, p.2)

/-- One or more elements and the bracket after them. -/
def elements : Nat → Nat → List Char → Option (List Json × List Char)
  | 0, _, _ => none
  | fuel + 1, depth, cs =>
    match value fuel depth cs with
    | none => none
    | some (v, r) =>
      match skip r with
      | ',' :: r => (elements fuel depth r).map fun p => (v :: p.1, p.2)
      | ']' :: r => some ([v], r)
      | _ => none

/-- One or more members and the brace after them. -/
def members : Nat → Nat → List Char → Option (List (String × Json) × List Char)
  | 0, _, _ => none
  | fuel + 1, depth, cs =>
    match skip cs with
    | '"' :: r =>
      match stringBody r with
      | none => none
      | some (k, r) =>
        match skip r with
        | ':' :: r =>
          match value fuel depth r with
          | none => none
          | some (v, r) =>
            match skip r with
            | ',' :: r => (members fuel depth r).map fun p => ((String.ofList k, v) :: p.1, p.2)
            | '\x7d' :: r => some ([(String.ofList k, v)], r)
            | _ => none
        | _ => none
    | _ => none

end

/-- The one value of a text, objects as they were written. -/
def parseChars? (cs : List Char) : Option Json :=
  match value (2 * cs.length + 2) depthLimit cs with
  | some (v, r) => if (skip r).isEmpty then some v else none
  | none => none

def parse? (s : String) : Option Json := parseChars? s.toList

/-- The one value of a text, in normal form. -/
def read? (s : String) : Option Json := (parse? s).map normal

end Conformance.Json
