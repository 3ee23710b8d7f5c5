/-!
# Numbers written as digits

Unsigned and signed numbers in any base up to sixteen, with an optional sign and within the
range of a machine word. The digits alone decide: no blanks, no separators.
-/

namespace Conformance.Digits

/-- The value of a digit of any base up to thirty-six. -/
def value? (c : Char) : Option Nat :=
  if '0' ≤ c && c ≤ '9' then some (c.toNat - '0'.toNat)
  else if 'a' ≤ c && c ≤ 'z' then some (c.toNat - 'a'.toNat + 10)
  else if 'A' ≤ c && c ≤ 'Z' then some (c.toNat - 'A'.toNat + 10)
  else none

def isDecimal (c : Char) : Bool := '0' ≤ c && c ≤ '9'

/-- Appends the digits to the number read so far; `none` at the first that is none of the base. -/
def extend? (base : Nat) : Nat → List Char → Option Nat
  | n, [] => some n
  | n, c :: cs =>
    match value? c with
    | some d => if d < base then extend? base (n * base + d) cs else none
    | none => none

/-- One or more digits of the base. -/
def natural? (base : Nat) (cs : List Char) : Option Nat :=
  if cs.isEmpty then none else extend? base 0 cs

/-- Digits after an optional plus sign, with a value below the bound. -/
def unsigned? (base bound : Nat) (cs : List Char) : Option Nat :=
  let digits := match cs with
    | '+' :: r => r
    | r => r
  (natural? base digits).filter (· < bound)

/-- Digits after an optional sign, with a value in the range of a signed word of `bits` bits. -/
def signed? (base bits : Nat) (cs : List Char) : Option Int :=
  match cs with
  | '-' :: r => ((natural? base r).filter (· ≤ 1 <<< (bits - 1))).map fun n => -(n : Int)
  | '+' :: r => ((natural? base r).filter (· < 1 <<< (bits - 1))).map Int.ofNat
  | r => ((natural? base r).filter (· < 1 <<< (bits - 1))).map Int.ofNat

def word32? (s : String) : Option Nat := unsigned? 10 0x100000000 s.toList

def word64? (s : String) : Option Nat := unsigned? 10 0x10000000000000000 s.toList

end Conformance.Digits
