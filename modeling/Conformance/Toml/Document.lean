import Conformance.Toml.Scalar

/-!
# TOML documents

Keys, values that hold values, and the lines of a document: headers that start a table, and keys
with values that are put into it. Values are nested less than `depthLimit` deep, and a key has fewer
parts than that.
-/

namespace Conformance.Toml

/-- The bound on levels of values and on parts of keys. -/
def depthLimit : Nat := 80

def skipBlanks (cs : List Char) : List Char := cs.dropWhile isBlank

/-- The text after a comment, if it starts with one; a comment ends before the line does. -/
def skipComment : List Char → List Char
  | '#' :: r => r.dropWhile isPlain
  | r => r

/-- The text after the end of a line, which may have blanks and a comment before it. -/
def endLine? (cs : List Char) : Option (List Char) :=
  match skipComment (skipBlanks cs) with
  | [] => some []
  | r => lineBreak? r

/-- The text after blanks, comments and line breaks. `fuel` bounds the number of lines. -/
def skipLines : Nat → List Char → Option (List Char)
  | 0, cs => some cs
  | fuel + 1, cs =>
    match skipBlanks cs with
    | '#' :: r => (lineBreak? (r.dropWhile isPlain)).bind (skipLines fuel)
    | r =>
      match lineBreak? r with
      | some r => skipLines fuel r
      | none => some r

/-! ## Keys -/

/-- A character of a key without quotes. -/
def isBare (c : Char) : Bool := c.isAlphanum || c = '-' || c = '_'

/-- One part of a key. -/
def keyPart? : Step String := fun cs =>
  match cs with
  | '"' :: r => (basicBody 0 r).map fun p => (String.ofList p.1, p.2)
  | '\'' :: r => (literalBody r).map fun p => (String.ofList p.1, p.2)
  | cs =>
    let bare := cs.takeWhile isBare
    if bare.isEmpty then none else some (String.ofList bare, cs.dropWhile isBare)

/-- The parts of a key, with blanks around them; `fuel` bounds their number. -/
def keyParts? : Nat → Step (List String)
  | 0, _ => none
  | fuel + 1, cs =>
    match keyPart? (skipBlanks cs) with
    | none => none
    | some (part, r) =>
      match skipBlanks r with
      | '.' :: r => (keyParts? fuel r).map fun p => (part :: p.1, p.2)
      | r => some ([part], r)

/-- A key: the names of the tables it leads through, and its last part. -/
def key? : Step (List String × String) := fun cs =>
  match keyParts? (depthLimit - 1) cs with
  | some (parts, r) => parts.getLast?.map fun last => ((parts.dropLast, last), r)
  | none => none

/-! ## Values -/

mutual

/-- A value. The first argument bounds the steps, the second the levels. -/
def value? : Nat → Nat → Step Value
  | 0, _, _ => none
  | fuel + 1, depth, cs =>
    match cs with
    | '[' :: r =>
      if depth ≤ 1 then none
      else
        match skipLines r.length r with
        | some (']' :: rest) => some (.list [], rest)
        | _ => (items? fuel (depth - 1) r).map fun p => (.list p.1, p.2)
    | '\x7b' :: r =>
      if depth ≤ 1 then none
      else
        match skipBlanks r with
        | '\x7d' :: rest => some (.table .inline [], rest)
        | r =>
          match pairs? fuel (depth - 1) r with
          | some (pairs, rest) => (inlineTable pairs).map (·, rest)
          | none => none
    | cs => scalar? cs

/-- The values of a list, of which there is one at least, and the bracket after them. A comma may
follow the last. -/
def items? : Nat → Nat → Step (List Value)
  | 0, _, _ => none
  | fuel + 1, depth, cs => do
    let (v, r) ← value? fuel depth (← skipLines cs.length cs)
    match ← skipLines r.length r with
    | ']' :: r => return ([v], r)
    | ',' :: r =>
      match ← skipLines r.length r with
      | ']' :: r => return ([v], r)
      | r =>
        let (vs, r) ← items? fuel depth r
        return (v :: vs, r)
    | _ => none

/-- The keys and values of an inline table, of which there is one at least, and the brace after
them. -/
def pairs? : Nat → Nat → Step (List (List String × String × Value))
  | 0, _, _ => none
  | fuel + 1, depth, cs => do
    let ((path, key), r) ← key? cs
    let (v, r) ← value? fuel depth (skipBlanks (← Instant.char '=' r))
    match skipBlanks r with
    | '\x7d' :: r => return ([(path, key, v)], r)
    | ',' :: r =>
      let (ps, r) ← pairs? fuel depth r
      return ((path, key, v) :: ps, r)
    | _ => none

end

/-! ## Lines -/

/-- A line that says something. -/
inductive Line where
  | header (path : List String) (key : String)
  | element (path : List String) (key : String)
  | entry (path : List String) (key : String) (value : Value)

/-- A line, from its first character other than a blank on. -/
def line? : Step Line := fun cs => do
  match cs with
  | '[' :: '[' :: r =>
    let ((path, key), r) ← key? r
    return (.element path key, ← endLine? (← Instant.char ']' (← Instant.char ']' r)))
  | '[' :: r =>
    let ((path, key), r) ← key? r
    return (.header path key, ← endLine? (← Instant.char ']' r))
  | cs =>
    let ((path, key), r) ← key? cs
    let r := skipBlanks (← Instant.char '=' r)
    let (v, r) ← value? (2 * r.length + 2) depthLimit r
    return (.entry path key v, ← endLine? r)

/-- The lines of a text; `fuel` bounds their number. -/
def lines? : Nat → List Char → Option (List Line)
  | 0, cs => if cs.isEmpty then some [] else none
  | fuel + 1, cs =>
    match skipComment (skipBlanks cs) with
    | [] => some []
    | _ =>
      match endLine? cs with
      | some r => lines? fuel r
      | none =>
        match line? (skipBlanks cs) with
        | some (line, r) => (lines? fuel r).map (line :: ·)
        | none => none

/-! ## Documents -/

/-- A document so far: its tables, and the path to the table that entries are put into. -/
structure Draft where
  /-- The tables of the document, from the outermost on. -/
  root : Entries
  current : List String

/-- A document with one more line. -/
def Draft.add (d : Draft) : Line → Option Draft
  | .header path key => (startTable path key d.root).map (⟨·, path ++ [key]⟩)
  | .element path key => (startElement path key d.root).map (⟨·, path ++ [key]⟩)
  | .entry path key v =>
    (alter false (fun _ es => addDotted path key v es) .header d.root d.current).map
      (⟨·, d.current⟩)

/-- The outermost table of a text. A byte order mark may come first. -/
def parse? (text : String) : Option Entries := do
  let cs := text.toList
  let cs := if cs.head? = some '\uFEFF' then cs.drop 1 else cs
  let lines ← lines? cs.length cs
  let draft ← lines.foldlM Draft.add ⟨[], []⟩
  return draft.root

end Conformance.Toml
