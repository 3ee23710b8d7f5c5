import Conformance.Text.Digits

/-!
# Positions in a YAML text

Indentation gives a YAML text its structure, so a reader keeps track of the line and the column along
with the characters that are still to be read.
-/

namespace Conformance.Yaml

/-! ## Classes of characters -/

/-- A character that ends a line. -/
def isBreak (c : Char) : Bool :=
  c = '\r' || c = '\n' || c = '\u0085' || c = '\u2028' || c = '\u2029'

/-- A character that separates words within a line. -/
def isSpace (c : Char) : Bool := c = ' ' || c = '\t'

/-- A space or the end of a line. -/
def isGap (c : Char) : Bool := isSpace c || isBreak c

/-- A character of a plain name. -/
def isWordChar (c : Char) : Bool := c.isAlphanum || c = '_' || c = '-'

/-- A bracket, brace or comma, which structure a flow collection. -/
def isFlowMark (c : Char) : Bool := c = ',' || c = '[' || c = ']' || c = '\x7b' || c = '\x7d'

/-- A character that a YAML text may hold at all. -/
def isPermitted (c : Char) : Bool :=
  let n := c.toNat
  n = 0x09 || n = 0x0A || n = 0x0D || (0x20 ≤ n && n ≤ 0x7E) || n = 0x85
    || (0xA0 ≤ n && n ≤ 0xD7FF) || (0xE000 ≤ n && n ≤ 0xFFFD) || 0x10000 ≤ n

/-- The mark that some texts start with. -/
def byteOrderMark : Char := '\uFEFF'

/-! ## Cursors -/

structure Cursor where
  rest : List Char
  index : Nat
  line : Nat
  /-- The number of characters read of the current line. -/
  column : Nat

namespace Cursor

def start (cs : List Char) : Cursor := ⟨cs, 0, 0, 0⟩

def peek? (c : Cursor) (n : Nat) : Option Char := c.rest[n]?

/-- Whether the character some places ahead is of a class. -/
def sees (c : Cursor) (n : Nat) (p : Char → Bool) : Bool := (c.peek? n).any p

/-- Whether the text ends, or has a gap, some places ahead. -/
def gapAt (c : Cursor) (n : Nat) : Bool := (c.peek? n).all isGap

def atLineEnd (c : Cursor) : Bool := (c.peek? 0).all isBreak

/-- Reads a number of characters of the current line. -/
def skip (c : Cursor) (n : Nat) : Cursor := ⟨c.rest.drop n, c.index + n, c.line, c.column + n⟩

/-- Reads the end of a line, and what it stands for. Carriage return and line feed are one. -/
def lineEnd (c : Cursor) : List Char × Cursor :=
  match c.rest with
  | '\r' :: '\n' :: r => (['\n'], ⟨r, c.index + 2, c.line + 1, 0⟩)
  | b :: r =>
    if isBreak b then
      (if b = '\u2028' || b = '\u2029' then [b] else ['\n'], ⟨r, c.index + 1, c.line + 1, 0⟩)
    else ([], c)
  | [] => ([], c)

/-- Reads characters of a class within the line. -/
def takeWhile (c : Cursor) (p : Char → Bool) : List Char × Cursor :=
  let run := c.rest.takeWhile p
  (run, c.skip run.length)

/-- Reads characters of a class within the line and forgets them. -/
def skipWhile (c : Cursor) (p : Char → Bool) : Cursor := (c.takeWhile p).2

/-- Reads the rest of the line, up to its end. -/
def skipLine (c : Cursor) : Cursor := c.skipWhile fun ch => !isBreak ch

/-- Whether a line starts here that is the marker of a document's start or end. -/
def atMarker (c : Cursor) (mark : Char) : Bool :=
  c.column = 0 && (c.rest.take 3 = [mark, mark, mark]) && c.gapAt 3

def atDocumentMarker (c : Cursor) : Bool := c.atMarker '-' || c.atMarker '.'

/-- Reads spaces and a comment to the end of the line; nothing else may stand there. -/
def restOfLine? (c : Cursor) : Option Cursor :=
  let c := c.skipWhile isSpace
  let c := if c.sees 0 (· = '#') then c.skipLine else c
  if c.atLineEnd then some c.lineEnd.2 else none

end Cursor

end Conformance.Yaml
