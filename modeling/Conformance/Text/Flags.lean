import Conformance.Text.Blank
import Conformance.Text.Digits

/-!
# Sets of flags as text

A set of named bits is written as the names of its flags, in the order of the table and joined by
bars; bits without a name come last, as one hexadecimal number. Reading takes the same form in any
order.
-/

namespace Conformance.Flags

/-- Named bits, in the order in which they are written. -/
abbrev Table := List (String × Nat)

/-- The names of the flags in a set, and the bits no name was found for. -/
def split : Table → Nat → List String × Nat
  | [], bits => ([], bits)
  | (name, mask) :: rest, bits =>
    if bits &&& mask = mask then
      let (names, left) := split rest (bits &&& (0xFFFFFFFFFFFFFFFF ^^^ mask))
      (name :: names, left)
    else split rest bits

/-- The text of a set. -/
def render (table : Table) (bits : Nat) : String :=
  let (names, left) := split table bits
  let all := if left = 0 then names
    else names ++ [String.ofList ('0' :: 'x' :: Nat.toDigits 16 left)]
  " | ".intercalate all

/-- The bits of one part of a text: a flag by name, or a number below the bound. -/
def part? (table : Table) (bound : Nat) (part : List Char) : Option Nat :=
  match part with
  | '0' :: 'x' :: digits => Digits.unsigned? 16 bound digits
  | name => table.lookup (String.ofList name)

/-- The union of the parts; a part that is blank, or no flag and no number, spoils the text. -/
def union? (table : Table) (bound : Nat) : List (List Char) → Option Nat
  | [] => some 0
  | p :: ps =>
    match part? table bound (Text.trimChars p), union? table bound ps with
    | some a, some b => some (a ||| b)
    | _, _ => none

/-- The set a text names. Blank text names the empty set. -/
def read? (table : Table) (bound : Nat) (text : String) : Option Nat :=
  if (Text.trimChars text.toList).isEmpty then some 0
  else union? table bound (text.toList.splitOn '|')

end Conformance.Flags
