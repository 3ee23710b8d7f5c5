import Conformance.Json

/-!
# JSON text

The text of a JSON value, compact or over several lines: members in the order in which they are
listed, and escapes only for quotes, backslashes and control characters below U+0020. So no text
that is written holds a NUL. The compact text has no blanks.
-/

namespace Conformance.Json

/-- The four hexadecimal digits of a control character. -/
def controlDigits (n : Nat) : List Char :=
  ['0', '0', Nat.digitChar (n / 16), Nat.digitChar (n % 16)]

/-- How a character is written inside a string. -/
def escaped (c : Char) : List Char :=
  if c = '"' then ['\\', '"']
  else if c = '\\' then ['\\', '\\']
  else if c.toNat = 8 then ['\\', 'b']
  else if c.toNat = 9 then ['\\', 't']
  else if c.toNat = 10 then ['\\', 'n']
  else if c.toNat = 12 then ['\\', 'f']
  else if c.toNat = 13 then ['\\', 'r']
  else if c.toNat < 0x20 then '\\' :: 'u' :: controlDigits c.toNat
  else [c]

def quoted (s : String) : List Char := '"' :: (s.toList.flatMap escaped ++ ['"'])

def numberText : Number → List Char
  | .int i => (toString i).toList
  | .float x => x.jsonText.toList

mutual

def chars : Json → List Char
  | .null => ['n', 'u', 'l', 'l']
  | .bool true => ['t', 'r', 'u', 'e']
  | .bool false => ['f', 'a', 'l', 's', 'e']
  | .num n => numberText n
  | .str s => quoted s
  | .arr [] => ['[', ']']
  | .arr (v :: r) => '[' :: (chars v ++ elementChars r)
  | .obj [] => ['\x7b', '\x7d']
  | .obj ((k, v) :: r) => '\x7b' :: (quoted k ++ ':' :: (chars v ++ memberChars r))

/-- The elements after the first one, and the bracket that closes the array. -/
def elementChars : List Json → List Char
  | [] => [']']
  | v :: r => ',' :: (chars v ++ elementChars r)

/-- The members after the first one, and the brace that closes the object. -/
def memberChars : List (String × Json) → List Char
  | [] => ['\x7d']
  | (k, v) :: r => ',' :: (quoted k ++ ':' :: (chars v ++ memberChars r))

end

def text (v : Json) : String := String.ofList (chars v)

/-! ## Text over several lines

For readers, every element and every member has a line of its own, indented by two blanks for each
array or object around it; an array or an object without any stays on its line. -/

/-- The start of a line inside so many arrays and objects. -/
def lineStart (depth : Nat) : List Char := '\n' :: List.replicate (2 * depth) ' '

mutual

/-- The characters of a value's text over several lines, inside so many arrays and objects. -/
def prettyChars (depth : Nat) : Json → List Char
  | .arr (v :: r) =>
    '[' :: (lineStart (depth + 1) ++ prettyChars (depth + 1) v ++ prettyElementChars depth r)
  | .obj ((k, v) :: r) =>
    '\x7b' :: (lineStart (depth + 1) ++ quoted k ++ ':' :: ' ' :: prettyChars (depth + 1) v
      ++ prettyMemberChars depth r)
  | v => chars v

def prettyElementChars (depth : Nat) : List Json → List Char
  | [] => lineStart depth ++ [']']
  | v :: r =>
    ',' :: (lineStart (depth + 1) ++ prettyChars (depth + 1) v ++ prettyElementChars depth r)

def prettyMemberChars (depth : Nat) : List (String × Json) → List Char
  | [] => lineStart depth ++ ['\x7d']
  | (k, v) :: r =>
    ',' :: (lineStart (depth + 1) ++ quoted k ++ ':' :: ' ' :: prettyChars (depth + 1) v
      ++ prettyMemberChars depth r)

end

def pretty (v : Json) : String := String.ofList (prettyChars 0 v)

end Conformance.Json
