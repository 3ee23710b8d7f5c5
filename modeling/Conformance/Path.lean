import Conformance.Text.Utf8

/-!
# Paths

A path is a byte string of names separated by `/`. Two readings of it are kept apart. The lexical
one ignores repeated separators, a `.` that is not the first component, and a trailing separator;
`components`, `parent` and `isContained` follow it. The other one, `pieces`, keeps what the
operating system acts on: a trailing separator asks for a directory.
-/

namespace Conformance

abbrev Path := Bytes

namespace Path

def separator : UInt8 := 0x2F

/-- The name of the directory itself. -/
def dot : Bytes := [0x2E]

/-- The name of the directory above. -/
def dotDot : Bytes := [0x2E, 0x2E]

/-- Whether the path starts at the root of the file system. -/
def isAbsolute (p : Path) : Bool := p.head? = some separator

/-- The pieces between separators; there is one more of them than there are separators. -/
def split : Bytes → List Bytes
  | [] => [[]]
  | b :: r =>
    if b = separator then [] :: split r
    else
      match split r with
      | [] => [[b]]
      | piece :: pieces => (b :: piece) :: pieces

/-- Pieces with separators between them. -/
def join : List Bytes → Bytes
  | [] => []
  | [piece] => piece
  | piece :: pieces => piece ++ separator :: join pieces

/-! ## Components -/

/-- A component of a path, read lexically. -/
inductive Component where
  | root
  | here
  | up
  | name (bytes : Bytes)
  deriving Repr, DecidableEq

/-- A piece as a component; empty pieces and `.` are none. -/
def component? (piece : Bytes) : Option Component :=
  if piece = [] || piece = dot then none
  else if piece = dotDot then some .up
  else some (.name piece)

/-- The components of a path. A `.` counts only where a relative path starts with it. -/
def components (p : Path) : List Component :=
  let pieces := split p
  let start : List Component :=
    if isAbsolute p then [.root] else if pieces.head? = some dot then [.here] else []
  start ++ pieces.filterMap component?

/-- Whether a path below a directory stays there by its components: it is not empty, not absolute,
and never goes up. -/
def isContained (p : Path) : Bool :=
  p ≠ [] && (components p).all fun c =>
    match c with
    | .here | .name _ => true
    | .root | .up => false

/-! ## Parent, join and name -/

/-- Pieces without the last ones that are no components. -/
def trimPieces (pieces : List Bytes) : List Bytes :=
  (pieces.reverse.dropWhile fun piece => (component? piece).isNone).reverse

/-- What a path starts with before its names: the root, a leading `.`, or nothing. -/
def lead (p : Path) : Nat :=
  if isAbsolute p || (split p).head? = some dot then 1 else 0

/-- The path without its last component; none for the root and the empty path. Separators and `.`
behind the last component that remains are dropped too. -/
def parent (p : Path) : Option Path :=
  let body := p.drop (lead p)
  match trimPieces (split body) with
  | [] => if p = [] || isAbsolute p then none else some []
  | pieces => some (p.take (lead p) ++ join (trimPieces pieces.dropLast))

/-- The second path as seen from the first: an absolute one stands for itself. -/
def append (base p : Path) : Path :=
  if isAbsolute p then p
  else if base = [] || base.getLast? = some separator then base ++ p
  else base ++ separator :: p

/-- The last component, if it is a name. -/
def fileName (p : Path) : Option Bytes :=
  match (components p).getLast? with
  | some (.name n) => some n
  | _ => none

/-- The name without what follows its last `.`; a name that only starts with one is kept. -/
def fileStem (p : Path) : Option Bytes :=
  (fileName p).map fun n =>
    match n.reverse.dropWhile (· ≠ 0x2E) with
    | [] => n
    | _ :: before => if before = [] then n else before.reverse

/-! ## For a reader -/

def text (p : Path) : String := Utf8.lossy p

def ofText (s : String) : Path := Utf8.encode s

/-! ## What the operating system acts on -/

/-- The names to walk along: no empty ones, but for one at the end where the path ends with a
separator. -/
def steps (p : Path) : List Bytes :=
  let pieces := split p
  let names := pieces.filter (· ≠ [])
  if names ≠ [] && pieces.getLast? = some [] then names ++ [[]] else names

end Path

end Conformance
