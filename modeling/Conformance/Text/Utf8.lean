/-!
# UTF-8 text in byte strings

Paths, names and payloads are byte strings that usually, but not always, hold UTF-8. `decode?`
reads a byte string as text and refuses anything else; `lossy` always answers and shows what
cannot be read as U+FFFD, one for each maximal piece that begins a character and stops short.
-/

namespace Conformance

/-- A byte string: a path, a name of the name service, a payload. -/
abbrev Bytes := List UInt8

namespace Utf8

def encode (s : String) : Bytes := s.toByteArray.data.toList

/-- The text whose bytes these are; `none` when they are not UTF-8. -/
def decode? (bs : Bytes) : Option String := String.fromUTF8? ⟨bs.toArray⟩

/-! ## Showing any bytes -/

/-- The character shown for bytes that are no text. -/
def replacement : Char := '\uFFFD'

/-- A byte that continues a character. -/
def isTail (b : UInt8) : Bool := 0x80 ≤ b && b ≤ 0xBF

/-- Whether `b` may follow the first byte `a` of a three byte character: overlong forms and
surrogates are left out. -/
def followsThree (a b : UInt8) : Bool :=
  if a = 0xE0 then 0xA0 ≤ b && b ≤ 0xBF
  else if a = 0xED then 0x80 ≤ b && b ≤ 0x9F
  else isTail b

/-- Whether `b` may follow the first byte `a` of a four byte character: overlong forms and code
points above U+10FFFF are left out. -/
def followsFour (a b : UInt8) : Bool :=
  if a = 0xF0 then 0x90 ≤ b && b ≤ 0xBF
  else if a = 0xF4 then 0x80 ≤ b && b ≤ 0x8F
  else isTail b

/-- The character of a lead byte's own bits followed by the six low bits of each tail. -/
def assemble (lead : Nat) (tails : List UInt8) : Char :=
  Char.ofNat (tails.foldl (fun n b => n * 64 + b.toNat % 64) lead)

/-- The character that begins with the byte `a`, and how many of the bytes after it belong to it.
A piece that stops short, or that no character begins with, is shown as the replacement. -/
def first (a : UInt8) (r : Bytes) : Char × Nat :=
  if a < 0x80 then (Char.ofNat a.toNat, 0)
  else if 0xC2 ≤ a && a ≤ 0xDF then
    match r with
    | b :: _ => if isTail b then (assemble (a.toNat % 32) [b], 1) else (replacement, 0)
    | [] => (replacement, 0)
  else if 0xE0 ≤ a && a ≤ 0xEF then
    match r with
    | b :: c :: _ =>
      if !followsThree a b then (replacement, 0)
      else if isTail c then (assemble (a.toNat % 16) [b, c], 2)
      else (replacement, 1)
    | [b] => (replacement, if followsThree a b then 1 else 0)
    | [] => (replacement, 0)
  else if 0xF0 ≤ a && a ≤ 0xF4 then
    match r with
    | b :: c :: d :: _ =>
      if !followsFour a b then (replacement, 0)
      else if !isTail c then (replacement, 1)
      else if isTail d then (assemble (a.toNat % 8) [b, c, d], 3)
      else (replacement, 2)
    | [b, c] => (replacement, if !followsFour a b then 0 else if isTail c then 2 else 1)
    | [b] => (replacement, if followsFour a b then 1 else 0)
    | [] => (replacement, 0)
  else (replacement, 0)

/-- The characters of any byte string, with U+FFFD for each piece that is no character. -/
def lossyChars : Bytes → List Char
  | [] => []
  | a :: r => (first a r).1 :: lossyChars (r.drop (first a r).2)
termination_by bs => bs.length
decreasing_by simp only [List.length_drop, List.length_cons]; omega

/-- Any byte string as text for a reader. -/
def lossy (bs : Bytes) : String := String.ofList (lossyChars bs)

end Utf8

end Conformance
