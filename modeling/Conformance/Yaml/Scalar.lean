import Conformance.Yaml.Cursor

/-!
# Scalars in a YAML text

A scalar is written plainly, in single or double quotes, or as a block of lines. Line ends inside a
scalar are folded: a single one becomes a space and further ones stay, except in a literal block,
where all of them stay.
-/

namespace Conformance.Yaml

inductive ScalarStyle where
  | plain
  | singleQuoted
  | doubleQuoted
  | literal
  | folded
  deriving Repr, DecidableEq

/-! ## Folding -/

/-- The gap between two words of a scalar. -/
structure Gap where
  /-- Whether it holds the end of a line. -/
  broken : Bool
  /-- The spaces before the first end of a line. -/
  spaces : List Char
  /-- What the first end of a line stands for. -/
  first : List Char
  /-- What the further ones stand for. -/
  further : List Char

def Gap.empty : Gap := ⟨false, [], [], []⟩

/-- The characters that a gap stands for. -/
def Gap.folded (g : Gap) : List Char :=
  if !g.broken then g.spaces
  else if g.first = ['\n'] then (if g.further = [] then [' '] else g.further)
  else g.first ++ g.further

/-- Reads a gap. `strict` is the column before which a tab must not stand on a new line. -/
def Gap.read (strict : Nat) : Nat → Gap → Cursor → Option (Gap × Cursor)
  | 0, g, c => some (g, c)
  | fuel + 1, g, c =>
    match c.rest with
    | ch :: _ =>
      if isSpace ch then
        if g.broken && ch = '\t' && c.column < strict then none
        else
          let g := if g.broken then g else { g with spaces := g.spaces ++ [ch] }
          Gap.read strict fuel g (c.skip 1)
      else if isBreak ch then
        let (text, c) := c.lineEnd
        let g := if g.broken then { g with further := g.further ++ text }
          else { g with broken := true, spaces := [], first := text }
        Gap.read strict fuel g c
      else some (g, c)
    | [] => some (g, c)

/-! ## Plain scalars -/

/-- The length of the word a plain scalar goes on with: up to a gap, a colon before a gap, and
inside a flow collection a mark of it. A colon just before such a mark is an error. -/
def plainWord (flow : Bool) : List Char → Option (List Char)
  | [] => some []
  | c :: r =>
    if isGap c then some []
    else
      let next := r.head?
      if flow && c = ':' && next.any fun d => isFlowMark d || d = '?' then none
      else if c = ':' && next.all isGap then some []
      else if flow && isFlowMark c then some []
      else (plainWord flow r).map (c :: ·)

/-- Reads a plain scalar word by word, after a gap. Outside flow collections it ends at a line that
is indented less than `indent`. Tells as well whether it ended on a new line. -/
def plainWords (flow : Bool) (indent : Nat) :
    Nat → Gap → Cursor → Option (List Char × Bool × Cursor)
  | 0, g, c => some ([], g.broken, c)
  | fuel + 1, g, c =>
    if c.atDocumentMarker || c.sees 0 (· = '#') then some ([], g.broken, c)
    else
      match plainWord flow c.rest with
      | none => none
      | some word =>
        let text := if word = [] then [] else g.folded ++ word
        let g := if word = [] then g else .empty
        let c := c.skip word.length
        if !c.sees 0 isGap then some (text, g.broken, c)
        else
          match Gap.read indent c.rest.length g c with
          | none => none
          | some (g, c) =>
            if !flow && c.column < indent then some (text, g.broken, c)
            else (plainWords flow indent fuel g c).map fun (more, r) => (text ++ more, r)

/-- A plain scalar: its text, whether it ended on a new line, and the position after it. -/
def plainScalar? (flow : Bool) (indent : Nat) (c : Cursor) : Option (List Char × Bool × Cursor) :=
  plainWords flow indent (c.rest.length + 1) .empty c

/-! ## Quoted scalars -/

/-- What a letter after a backslash stands for. -/
def escapes : List (Char × Char) := [
  ('0', '\x00'), ('a', '\x07'), ('b', '\x08'), ('t', '\t'), ('\t', '\t'), ('n', '\n'),
  ('v', '\x0b'), ('f', '\x0c'), ('r', '\r'), ('e', '\x1b'), (' ', ' '), ('"', '"'), ('/', '/'),
  ('\\', '\\'), ('N', '\u0085'), ('_', '\u00a0'), ('L', '\u2028'), ('P', '\u2029')]

/-- How many hexadecimal digits follow a letter after a backslash. -/
def escapeDigits : List (Char × Nat) := [('x', 2), ('u', 4), ('U', 8)]

/-- The character of an escape, and its length. -/
def escape? (letter : Char) (r : List Char) : Option (Char × Nat) :=
  match escapes.lookup letter with
  | some c => some (c, 2)
  | none => do
    let n ← escapeDigits.lookup letter
    let digits := r.take n
    if digits.length < n then none
    else
      let value ← Digits.natural? 16 digits
      if (0xD800 ≤ value && value ≤ 0xDFFF) || 0x10FFFF < value then none
      else some (Char.ofNat value, n + 2)

/-- Reads the characters of a quoted scalar up to a gap or the closing quote. Tells as well whether
an escaped line end came last. -/
def quotedWord (double : Bool) : Nat → Cursor → Option (List Char × Bool × Cursor)
  | 0, c => some ([], false, c)
  | fuel + 1, c =>
    let goOn (ch : Char) (n : Nat) : Option (List Char × Bool × Cursor) :=
      (quotedWord double fuel (c.skip n)).map fun (word, r) => (ch :: word, r)
    match c.rest with
    | [] => some ([], false, c)
    | ch :: r =>
      if isGap ch then some ([], false, c)
      else if !double && ch = '\'' then
        if r.head? = some '\'' then goOn '\'' 2 else some ([], false, c)
      else if double && ch = '"' then some ([], false, c)
      else if double && ch = '\\' then
        match r with
        | [] => none
        | letter :: digits =>
          if isBreak letter then some ([], true, (c.skip 1).lineEnd.2)
          else
            match escape? letter digits with
            | none => none
            | some (e, n) => goOn e n
      else goOn ch 1

/-- Reads a quoted scalar word by word, up to and over the closing quote. -/
def quotedWords (double : Bool) : Nat → Cursor → Option (List Char × Cursor)
  | 0, _ => none
  | fuel + 1, c =>
    if c.atDocumentMarker || c.rest.isEmpty then none
    else
      match quotedWord double c.rest.length c with
      | none => none
      | some (word, broken, c) =>
        if c.sees 0 (· = (if double then '"' else '\'')) then some (word, c.skip 1)
        else
          match Gap.read 0 c.rest.length { Gap.empty with broken } c with
          | none => none
          | some (g, c) =>
            (quotedWords double fuel c).map fun (more, c) => (word ++ g.folded ++ more, c)

def quotedScalar? (double : Bool) (c : Cursor) : Option (List Char × Cursor) :=
  quotedWords double (c.rest.length + 1) (c.skip 1)

/-! ## Block scalars -/

/-- What becomes of the line ends behind a block: all but the first are dropped, all are dropped, or
all are kept. -/
inductive Chomping where
  | clip
  | strip
  | keep
  deriving Repr, DecidableEq

/-- The chomping of a sign. -/
def Chomping.ofSign? (c : Char) : Option Chomping :=
  if c = '+' then some .keep else if c = '-' then some .strip else none

/-- The header of a block: its chomping, its indentation if one is given, and the position after
them. An indentation of zero is an error. -/
def blockHeader? (c : Cursor) : Option (Chomping × Nat × Cursor) :=
  let sign (c : Cursor) : Chomping × Cursor :=
    match (c.peek? 0).bind Chomping.ofSign? with
    | some chomping => (chomping, c.skip 1)
    | none => (.clip, c)
  let digit (c : Cursor) : Option (Nat × Cursor) :=
    match c.peek? 0 with
    | some d =>
      if d = '0' then none else if d.isDigit then some (d.toNat - 48, c.skip 1) else some (0, c)
    | none => some (0, c)
  if c.sees 0 Char.isDigit then
    (digit c).map fun (n, c) => ((sign c).1, n, (sign c).2)
  else
    let (chomping, c) := sign c
    if chomping = .clip then some (chomping, 0, c)
    else (digit c).map fun (n, c) => (chomping, n, c)

/-- Reads empty lines and the indentation of the next line. With no indentation known, the deepest
column that is met is remembered. -/
def blockBreaks (indent : Nat) : Nat → List Char → Nat → Cursor →
    Option (List Char × Nat × Cursor)
  | 0, breaks, deepest, c => some (breaks, deepest, c)
  | fuel + 1, breaks, deepest, c =>
    let spaces := (c.rest.takeWhile (· = ' ')).length
    let c := c.skip (if indent = 0 then spaces else min spaces (indent - c.column))
    let deepest := max deepest c.column
    if (indent = 0 || c.column < indent) && c.sees 0 (· = '\t') then none
    else if c.sees 0 isBreak then
      blockBreaks indent fuel (breaks ++ c.lineEnd.1) deepest c.lineEnd.2
    else some (breaks, deepest, c)

/-- Reads the lines of a block. `first` and `breaks` are the line ends since the last line, and
`spaced` says whether that line started with a space. -/
def blockLines (literal : Bool) (chomping : Chomping) (indent : Nat) :
    Nat → List Char → List Char → Bool → Cursor → Option (List Char × Cursor)
  | 0, _, _, _, c => some ([], c)
  | fuel + 1, first, breaks, spaced, c =>
    if c.column = indent && !c.rest.isEmpty then
      let starts := c.sees 0 isSpace
      let joint :=
        if !literal && first = ['\n'] && !spaced && !starts then
          if breaks = [] then [' '] else breaks
        else first ++ breaks
      let (line, c) := c.takeWhile fun ch => !isBreak ch
      let (first, c) := c.lineEnd
      match blockBreaks indent (c.rest.length + 1) [] 0 c with
      | none => none
      | some (breaks, _, c) =>
        (blockLines literal chomping indent fuel first breaks starts c).map fun (more, c) =>
          (joint ++ line ++ more, c)
    else
      let tail := match chomping with
        | .strip => []
        | .clip => first
        | .keep => first ++ breaks
      some (tail, c)

/-- A block scalar that starts with its indicator, inside a collection with a column, if any. -/
def blockScalar? (literal : Bool) (parent : Option Nat) (c : Cursor) :
    Option (List Char × Cursor) := do
  let (chomping, given, c) ← blockHeader? (c.skip 1)
  let c ← c.restOfLine?
  let known := if given = 0 then 0 else (parent.getD 0) + given
  let (breaks, deepest, c) ← blockBreaks known (c.rest.length + 1) [] 0 c
  let least := match parent with
    | some column => column + 1
    | none => 1
  let indent := if known = 0 then max deepest least else known
  blockLines literal chomping indent (c.rest.length + 1) [] breaks false c

end Conformance.Yaml
