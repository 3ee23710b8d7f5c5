import Conformance.Yaml.Scalar

/-!
# Tokens of a YAML text

Indentation and indicators become tokens: the start and end of collections, the entries, keys and
values in them, properties and scalars. Whether something is the key of a mapping shows only at the
colon after it. So wherever a key may start, the place is remembered, and the colon puts the tokens
for the key, and for a mapping that starts with it, in at that place. A place is forgotten when its
line ends or 1024 characters have passed; if indentation asks for a key there, that is an error.
-/

namespace Conformance.Yaml

inductive Token where
  | streamEnd
  | version (major minor : Nat)
  | tagDirective (handle : String) (start : String)
  | documentStart
  | documentEnd
  | blockSequenceStart
  | blockMappingStart
  | blockEnd
  | flowSequenceStart
  | flowSequenceEnd
  | flowMappingStart
  | flowMappingEnd
  | blockEntry
  | flowEntry
  | key
  | value
  | alias (name : String)
  | anchor (name : String)
  | tag (handle : String) (suffix : String)
  | scalar (style : ScalarStyle) (text : String)
  deriving Repr, DecidableEq

/-- A place where a key may start. -/
structure KeyPlace where
  required : Bool
  /-- How many tokens come before the place. -/
  token : Nat
  /-- The position of the place: the characters, lines and columns before it. -/
  index : Nat
  line : Nat
  column : Nat

/-- The state of the division into tokens. -/
structure Scan where
  cursor : Cursor
  tokens : Array Token
  /-- The columns of the block collections around the position, the innermost first. -/
  indents : List Nat
  /-- Whether a key may start here. -/
  keyAllowed : Bool
  /-- The place of a possible key in the block context. -/
  blockPlace : Option KeyPlace
  /-- The place of a possible key in each flow collection, the innermost first. -/
  flowPlaces : List (Option KeyPlace)

namespace Scan

def start (cs : List Char) : Scan := ⟨.start cs, #[], [], true, none, []⟩

def inFlow (s : Scan) : Bool := !s.flowPlaces.isEmpty

/-- The column of the innermost block collection. -/
def indent? (s : Scan) : Option Nat := s.indents.head?

def push (s : Scan) (t : Token) : Scan := { s with tokens := s.tokens.push t }

/-- Puts a token in at a place. -/
def putAt (s : Scan) (place : Nat) (t : Token) : Scan :=
  { s with tokens := s.tokens.insertIdxIfInBounds place t }

/-- Adds a token that takes some characters. -/
def pushSkip (s : Scan) (t : Token) (n : Nat) : Scan :=
  { s with tokens := s.tokens.push t, cursor := s.cursor.skip n }

/-! ## Places of keys -/

/-- The place of a possible key where the position is. -/
def place? (s : Scan) : Option KeyPlace :=
  match s.flowPlaces with
  | [] => s.blockPlace
  | p :: _ => p

/-- Sets the place of a possible key where the position is. -/
def withPlace (s : Scan) (p : Option KeyPlace) : Scan :=
  match s.flowPlaces with
  | [] => { s with blockPlace := p }
  | _ :: r => { s with flowPlaces := p :: r }

/-- Forgets the place of a possible key; one that has to be there must not be forgotten. -/
def forgetKey? (s : Scan) : Option Scan :=
  if s.place?.any (·.required) then none else some (s.withPlace none)

/-- Remembers the position as the place of a possible key. -/
def rememberKey? (s : Scan) : Option Scan :=
  if !s.keyAllowed then some s
  else do
    let s ← s.forgetKey?
    let required := !s.inFlow && s.indent? = some s.cursor.column
    return s.withPlace (some
      ⟨required, s.tokens.size, s.cursor.index, s.cursor.line, s.cursor.column⟩)

/-- The characters after which a place is forgotten. -/
def keyLength : Nat := 1024

/-- Whether a place is too far away to be that of a key. -/
def isStale (c : Cursor) (p : KeyPlace) : Bool :=
  p.line < c.line || p.index + keyLength < c.index

/-- A place, unless it is too far away; one that has to be a key must not be. -/
def freshPlace? (c : Cursor) : Option KeyPlace → Option (Option KeyPlace)
  | none => some none
  | some p =>
    if !isStale c p then some (some p) else if p.required then none else some none

def forgetStale? (s : Scan) : Option Scan := do
  let blockPlace ← freshPlace? s.cursor s.blockPlace
  let flowPlaces ← s.flowPlaces.mapM (freshPlace? s.cursor)
  return { s with blockPlace, flowPlaces }

/-! ## Indentation -/

/-- Ends the block collections around the position that are indented by at least `depth`. -/
def endBlocks (tokens : Array Token) (depth : Nat) : List Nat → Array Token × List Nat
  | [] => (tokens, [])
  | column :: r =>
    if depth ≤ column then endBlocks (tokens.push .blockEnd) depth r else (tokens, column :: r)

/-- Ends block collections that are indented by at least `depth`. Inside flow collections
indentation has no meaning. -/
def unroll (s : Scan) (depth : Nat) : Scan :=
  if s.inFlow then s
  else
    let (tokens, indents) := endBlocks s.tokens depth s.indents
    { s with tokens, indents }

/-- Starts a block collection at a column, unless one is there; its token goes in at a place. -/
def roll (s : Scan) (column place : Nat) (t : Token) : Scan :=
  if s.inFlow || s.indents.head?.any (column ≤ ·) then s
  else { s.putAt place t with indents := column :: s.indents }

/-! ## Blanks and comments -/

/-- Reads blanks, comments and line ends up to the next token. A tab may not indent a line. -/
def skipBlanks : Nat → Scan → Scan
  | 0, s => s
  | fuel + 1, s =>
    let c := s.cursor
    let c := if c.index = 0 && c.sees 0 (· = byteOrderMark) then c.skip 1 else c
    let tabs := s.inFlow || !s.keyAllowed
    let c := c.skipWhile fun ch => ch = ' ' || (tabs && ch = '\t')
    let c := if c.sees 0 (· = '#') then c.skipLine else c
    if c.sees 0 isBreak then
      skipBlanks fuel
        { s with cursor := c.lineEnd.2, keyAllowed := s.keyAllowed || !s.inFlow }
    else { s with cursor := c }

/-! ## Properties and directives -/

/-- Whether a character may follow the name of an anchor or alias. -/
def endsName (c : Char) : Bool :=
  isGap c || "?:,]\x7d%@\x60".toList.contains c

def name? (c : Cursor) : Option (String × Cursor) :=
  let (name, c) := (c.skip 1).takeWhile isWordChar
  if name = [] || !(c.peek? 0).all endsName then none else some (String.ofList name, c)

/-- Whether a character may stand in a tag. Only a whole tag may hold the marks of flow
collections. -/
def isTagChar (whole : Bool) (c : Char) : Bool :=
  isWordChar c || ";/?:@&=+$.!~*'()%".toList.contains c || (whole && ",[]".toList.contains c)

/-- Bytes of percent signs with two digits each. -/
def percentBytes : List Char → Option (List UInt8)
  | '%' :: a :: b :: r => do
    let n ← Digits.natural? 16 [a, b]
    let more ← percentBytes r
    return UInt8.ofNat n :: more
  | _ => some []

/-- The characters of a tag with percent signs resolved. -/
def unescape : Nat → List Char → Option (List Char)
  | 0, _ => some []
  | _, [] => some []
  | fuel + 1, '%' :: r => do
    let bytes ← percentBytes ('%' :: r)
    if bytes = [] then none
    else
      let text ← String.fromUTF8? ⟨bytes.toArray⟩
      let more ← unescape fuel (r.drop (3 * bytes.length - 1))
      return text.toList ++ more
  | fuel + 1, c :: r => (unescape fuel r).map (c :: ·)

def tagText? (whole : Bool) (c : Cursor) : Option (List Char × Cursor) := do
  let (run, c) := c.takeWhile (isTagChar whole)
  let text ← unescape run.length run
  return (text, c)

/-- Reads an exclamation mark, a name, and the exclamation mark after it, if there is one. -/
def handle? (c : Cursor) : Option (List Char × Cursor) :=
  if !c.sees 0 (· = '!') then none
  else
    let (name, c) := (c.skip 1).takeWhile isWordChar
    if c.sees 0 (· = '!') then some ('!' :: name ++ ['!'], c.skip 1) else some ('!' :: name, c)

/-- Reads a tag: its handle and what follows the handle. -/
def tag? (inFlow : Bool) (c : Cursor) : Option (Token × Cursor) := do
  let (token, c) ←
    if c.sees 1 (· = '<') then do
      let (text, c) ← tagText? true (c.skip 2)
      if text = [] || !c.sees 0 (· = '>') then none
      else some (Token.tag "" (String.ofList text), c.skip 1)
    else do
      let (handle, after) ← handle? c
      let (text, c) ← tagText? false after
      if handle.length ≥ 2 && handle.getLast? = some '!' then
        if text = [] then none
        else some (Token.tag (String.ofList handle) (String.ofList text), c)
      else
        let suffix := handle.drop 1 ++ text
        if suffix = [] then some (Token.tag "" "!", c)
        else some (Token.tag "!" (String.ofList suffix), c)
  if (inFlow && c.sees 0 (· = ',')) || c.gapAt 0 then some (token, c) else none

/-- Reads a number of at most nine digits. -/
def versionNumber? (c : Cursor) : Option (Nat × Cursor) :=
  let (digits, c) := c.takeWhile Char.isDigit
  if 9 < digits.length then none
  else (Digits.natural? 10 digits).map fun n => (n, c)

/-- Reads a directive. One with an unknown name is an error. -/
def directive? (c : Cursor) : Option (Token × Cursor) := do
  let (name, c) := (c.skip 1).takeWhile isWordChar
  if name = [] || !c.gapAt 0 then none
  else
    let c := c.skipWhile isSpace
    let (token, c) ←
      if name = "YAML".toList then do
        let (major, c) ← versionNumber? c
        if !c.sees 0 (· = '.') then none
        else
          let (minor, c) ← versionNumber? (c.skip 1)
          some (Token.version major minor, c)
      else if name = "TAG".toList then do
        let (handle, c) ← handle? c
        if handle ≠ ['!'] && (handle.length = 1 || handle.getLast? ≠ some '!') then none
        else if !c.sees 0 isSpace then none
        else
          let (text, c) ← tagText? true (c.skipWhile isSpace)
          if text = [] || !c.gapAt 0 then none
          else some (Token.tagDirective (String.ofList handle) (String.ofList text), c)
      else none
    let c ← c.restOfLine?
    return (token, c)

/-! ## Tokens -/

/-- Reads the marker of a document or a directive: nothing that came before goes on. -/
def boundary? (s : Scan) (token : Cursor → Option (Token × Cursor)) : Option Scan := do
  let s ← (s.unroll 0).forgetKey?
  let (t, cursor) ← token s.cursor
  return { s.push t with cursor, keyAllowed := false }

def flowStart? (s : Scan) (t : Token) : Option Scan := do
  let s ← s.rememberKey?
  let s := { s with flowPlaces := none :: s.flowPlaces, keyAllowed := true }
  return s.pushSkip t 1

def flowEnd? (s : Scan) (t : Token) : Option Scan := do
  let s ← s.forgetKey?
  let s := { s with flowPlaces := s.flowPlaces.drop 1, keyAllowed := false }
  return s.pushSkip t 1

/-- Reads a comma between the entries of a flow collection. -/
def flowEntry? (s : Scan) : Option Scan := do
  let s ← s.forgetKey?
  return { s with keyAllowed := true }.pushSkip .flowEntry 1

def blockEntry? (s : Scan) : Option Scan := do
  if !s.inFlow && !s.keyAllowed then none
  else
    let s := s.roll s.cursor.column s.tokens.size .blockSequenceStart
    let s ← s.forgetKey?
    return { s with keyAllowed := true }.pushSkip .blockEntry 1

def key? (s : Scan) : Option Scan := do
  if !s.inFlow && !s.keyAllowed then none
  else
    let s := s.roll s.cursor.column s.tokens.size .blockMappingStart
    let s ← s.forgetKey?
    return { s with keyAllowed := !s.inFlow }.pushSkip .key 1

/-- Reads the colon of a value. A possible key before it becomes one. -/
def value? (s : Scan) : Option Scan :=
  match s.place? with
  | some p =>
    let s := (s.putAt p.token .key).roll p.column p.token .blockMappingStart
    some ({ s.withPlace none with keyAllowed := false }.pushSkip .value 1)
  | none =>
    if !s.inFlow && !s.keyAllowed then none
    else
      let s := s.roll s.cursor.column s.tokens.size .blockMappingStart
      some ({ s with keyAllowed := !s.inFlow }.pushSkip .value 1)

/-- Reads something that may start a key: an anchor, an alias, a tag or a scalar. -/
def content? (s : Scan) (token : Cursor → Option (Token × Cursor)) : Option Scan := do
  let s ← s.rememberKey?
  let (t, cursor) ← token s.cursor
  return { s.push t with cursor, keyAllowed := false }

/-- Reads a plain scalar. If it ends on a new line, a key may start there. -/
def plain? (s : Scan) : Option Scan := do
  let s ← s.rememberKey?
  let least := match s.indent? with
    | some column => column + 1
    | none => 0
  let (text, broken, cursor) ← plainScalar? s.inFlow least s.cursor
  return { s.push (.scalar .plain (String.ofList text)) with cursor, keyAllowed := broken }

def block? (s : Scan) (literal : Bool) : Option Scan := do
  let s ← s.forgetKey?
  let (text, cursor) ← blockScalar? literal s.indent? s.cursor
  let style := if literal then ScalarStyle.literal else .folded
  return { s.push (.scalar style (String.ofList text)) with cursor, keyAllowed := true }

def quoted? (s : Scan) (double : Bool) : Option Scan :=
  s.content? fun c => (quotedScalar? double c).map fun (text, c) =>
    (.scalar (if double then .doubleQuoted else .singleQuoted) (String.ofList text), c)

/-- Whether a plain scalar may start here. -/
def startsPlain (s : Scan) (ch : Char) : Bool :=
  let next := s.cursor.gapAt 1
  if ch = '-' then !s.cursor.sees 1 isSpace
  else if ch = '?' || ch = ':' then !s.inFlow && !next
  else !isGap ch && !isFlowMark ch && !"#&*!|>'\"%@\x60".toList.contains ch

def token? (s : Scan) (ch : Char) : Option Scan :=
  let next := s.cursor.gapAt 1
  if s.cursor.column = 0 && ch = '%' then s.boundary? directive?
  else if s.cursor.atMarker '-' then s.boundary? fun c => some (.documentStart, c.skip 3)
  else if s.cursor.atMarker '.' then s.boundary? fun c => some (.documentEnd, c.skip 3)
  else if ch = '[' then s.flowStart? .flowSequenceStart
  else if ch = '\x7b' then s.flowStart? .flowMappingStart
  else if ch = ']' then s.flowEnd? .flowSequenceEnd
  else if ch = '\x7d' then s.flowEnd? .flowMappingEnd
  else if ch = ',' then s.flowEntry?
  else if ch = '-' && next then s.blockEntry?
  else if ch = '?' && (s.inFlow || next) then s.key?
  else if ch = ':' && (s.inFlow || next) then s.value?
  else if ch = '*' then s.content? fun c => (name? c).map fun (n, c) => (.alias n, c)
  else if ch = '&' then s.content? fun c => (name? c).map fun (n, c) => (.anchor n, c)
  else if ch = '!' then s.content? (tag? s.inFlow)
  else if ch = '|' && !s.inFlow then s.block? true
  else if ch = '>' && !s.inFlow then s.block? false
  else if ch = '\'' then s.quoted? false
  else if ch = '"' then s.quoted? true
  else if s.startsPlain ch then s.plain?
  else none

/-- Reads every token. A token takes at least one character, so as many steps as there are
characters are enough. -/
def run : Nat → Scan → Option (Array Token)
  | 0, _ => none
  | fuel + 1, s => do
    let s ← (s.skipBlanks (s.cursor.rest.length + 1)).forgetStale?
    let s := s.unroll (s.cursor.column + 1)
    match s.cursor.rest with
    | [] => do
      let s ← (s.unroll 0).forgetKey?
      return s.tokens.push .streamEnd
    | ch :: _ => run fuel (← s.token? ch)

end Scan

/-- The tokens of a text; `none` for a text that is no YAML by its characters and indentation. -/
def Token.scan? (text : String) : Option (List Token) :=
  let cs := match text.toList with
    | c :: r => if c = byteOrderMark then r else c :: r
    | [] => []
  if cs.all isPermitted then (Scan.run (cs.length + 1) (.start cs)).map Array.toList else none

end Conformance.Yaml
