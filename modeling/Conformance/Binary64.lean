import Conformance.Text.Digits

/-!
# Binary64 numbers and decimals

A document may hold numbers with a fraction. They are kept as the binary64 value nearest to the
decimal that was written, ties to the even neighbour, and shown with the fewest digits that read
back as the same value. Everything is exact arithmetic on naturals.
-/

namespace Conformance

/-- A binary64 value. A finite one is `± mantissa * 2 ^ exponent` in its one normal form: the
mantissa has 53 bits, or fewer with the least exponent, -1074. -/
inductive Binary64 where
  | finite (negative : Bool) (mantissa : Nat) (exponent : Int)
  | infinite (negative : Bool)
  | nan
  deriving Repr, DecidableEq

namespace Binary64

def zero (negative : Bool) : Binary64 := .finite negative 0 (-1074)

def isFinite : Binary64 → Bool
  | .finite .. => true
  | _ => false

/-! ## Reading -/

/-- The quotient rounded to the nearest natural, a half to the even one. -/
def roundDiv (num den : Nat) : Nat :=
  let q := num / den
  let r := num % den
  if 2 * r < den then q
  else if den < 2 * r then q + 1
  else if q % 2 = 0 then q else q + 1

/-- `num / den * 2 ^ (-q)` rounded to the nearest natural. -/
def scaledRound (num den : Nat) (q : Int) : Nat :=
  roundDiv (num <<< (-q).toNat) (den <<< q.toNat)

/-- The value nearest to the positive fraction `num / den`. -/
def ofFraction (negative : Bool) (num den : Nat) : Binary64 :=
  let q₀ := max (-1074) ((Nat.log2 num : Int) - Nat.log2 den - 53)
  -- with `q₀` the quotient has 53 or 54 bits, or fewer at the least exponent
  let q := if (num <<< (-q₀).toNat) / (den <<< q₀.toNat) < 0x20000000000000 then q₀ else q₀ + 1
  let m := scaledRound num den q
  let (m, q) := if m = 0x20000000000000 then (0x10000000000000, q + 1) else (m, q)
  if 971 < q then .infinite negative else .finite negative m q

/-- The value nearest to `± digits * 10 ^ exponent`. -/
def ofDecimal (negative : Bool) (digits : Nat) (exponent : Int) : Binary64 :=
  if digits = 0 then zero negative
  else
    let magnitude := (Nat.log2 digits : Int) / 4 + exponent
    if 320 < magnitude then .infinite negative
    else if (Nat.log2 digits : Int) / 3 + 1 + exponent < -330 then zero negative
    else ofFraction negative (digits * Nat.pow 10 exponent.toNat) (Nat.pow 10 (-exponent).toNat)

/-- The exponent that ends a decimal: nothing, or `e` with an optional sign and digits. -/
def exponent? : List Char → Option Int
  | [] => some 0
  | c :: cs =>
    if c = 'e' || c = 'E' then
      match cs with
      | '-' :: r => (Digits.natural? 10 r).map fun n => -(n : Int)
      | '+' :: r => (Digits.natural? 10 r).map Int.ofNat
      | r => (Digits.natural? 10 r).map Int.ofNat
    else none

/-- An unsigned decimal: digits with a point anywhere among or beside them, then an exponent. -/
def unsigned? (negative : Bool) (cs : List Char) : Option Binary64 :=
  let whole := cs.takeWhile Digits.isDecimal
  let rest := cs.dropWhile Digits.isDecimal
  let (places, tail) := match rest with
    | '.' :: r => (r.takeWhile Digits.isDecimal, r.dropWhile Digits.isDecimal)
    | r => ([], r)
  match Digits.natural? 10 (whole ++ places), exponent? tail with
  | some n, some e => some (ofDecimal negative n (e - places.length))
  | _, _ => none

def ofChars? : List Char → Option Binary64
  | '-' :: r => unsigned? true r
  | '+' :: r => unsigned? false r
  | r => unsigned? false r

/-! ## Writing -/

/-- The greatest `e` with `10 ^ e ≤ m * 2 ^ q`, for a positive `m`. -/
def decimalExponent (m : Nat) (q : Int) : Int :=
  let guess := (((Nat.log2 m : Int) + q) * 30103).fdiv 100000
  let next := guess + 1
  if Nat.pow 10 next.toNat <<< (-q).toNat ≤ m <<< q.toNat * Nat.pow 10 (-next).toNat then next
  else guess

/-- The neighbour on the grid `10 ^ k` that reads back as `m * 2 ^ q`, the nearer one of two. -/
def onGrid (m : Nat) (q k : Int) : Option Nat :=
  -- units of a quarter of the last place, so that the rounding bounds are whole numbers
  let up (x : Nat) : Nat := x <<< (q - 2).toNat * Nat.pow 10 (-k).toNat
  let unit : Nat := 1 <<< (2 - q).toNat * Nat.pow 10 k.toNat
  let value := up (4 * m)
  let low := up (if m = 0x10000000000000 && -1074 < q then 4 * m - 1 else 4 * m - 2)
  let high := up (4 * m + 2)
  let fits (c : Nat) : Bool :=
    if m % 2 = 0 then low ≤ c * unit && c * unit ≤ high else low < c * unit && c * unit < high
  let below := value / unit
  let above := below + 1
  match fits below, fits above with
  | true, true => if 2 * value ≤ (below + above) * unit then some below else some above
  | true, false => some below
  | false, true => some above
  | false, false => none

/-- The fewest digits that read back as `m * 2 ^ q`, as `(digits, power of ten)`. -/
def shortest (m : Nat) (q : Int) : Nat × Int :=
  let e := decimalExponent m q
  let grids := (List.range 17).map fun (n : Nat) => e - (n : Int)
  match grids.findSome? fun k => (onGrid m q k).map fun d => (d, k) with
  | some r => r
  | none => (0, 0)

/-- Drops zeros at the end of the digits into the power of ten. -/
def stripZeros : Nat → Nat × Int → Nat × Int
  | 0, r => r
  | n + 1, (d, k) => if d ≠ 0 && d % 10 = 0 then stripZeros n (d / 10, k + 1) else (d, k)

/-- The digits of a finite value and the power of ten they count. -/
def decimal (m : Nat) (q : Int) : List Char × Int :=
  if m = 0 then (['0'], 0)
  else
    let (d, k) := stripZeros 20 (shortest m q)
    ((Nat.toDigits 10 d), k)

/-- Digits and a power of ten without an exponent: zeros are added on either side as needed. -/
def positional (digits : List Char) (k : Int) : List Char :=
  let n : Int := digits.length + k
  if 0 ≤ k then digits ++ List.replicate k.toNat '0'
  else if 0 < n then digits.take n.toNat ++ '.' :: digits.drop n.toNat
  else '0' :: '.' :: (List.replicate (-n).toNat '0' ++ digits)

/-- The value in full, without an exponent. -/
def text : Binary64 → String
  | .finite s m q =>
    let (d, k) := decimal m q
    String.ofList ((if s then ['-'] else []) ++ positional d k)
  | .infinite s => if s then "-inf" else "inf"
  | .nan => "NaN"

/-- The value in full, with a point even when it is whole. -/
def pointText (x : Binary64) : String :=
  if x.isFinite && !x.text.toList.contains '.' then x.text ++ ".0" else x.text

/-- The value as a number of a JSON text: positional from `1e-5` up to `1e16`, otherwise with an
exponent. -/
def jsonText : Binary64 → String
  | .finite s m q =>
    let (d, k) := decimal m q
    let sign := if s then ['-'] else []
    let n : Int := d.length + k
    let body :=
      if m = 0 then ['0', '.', '0']
      else if 0 ≤ k && n ≤ 16 then positional d k ++ ['.', '0']
      else if -5 < n && n ≤ 16 then positional d k
      else
        d.take 1 ++ (if d.length = 1 then [] else '.' :: d.drop 1) ++ 'e' :: (toString (n - 1)).toList
    String.ofList (sign ++ body)
  | _ => "null"

end Binary64

end Conformance
