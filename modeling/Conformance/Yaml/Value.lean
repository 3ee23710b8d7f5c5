import Conformance.Datum
import Conformance.Yaml.Node

/-!
# The value of a YAML document

A plain scalar is null, a truth value or a number if it looks like one, and text otherwise; a scalar
of another style is text. Tags that start with an exclamation mark stay with their value. An alias is
the value of its node once more. A key may come only once in a mapping, a whole number has to fit in
64 bits, and values are nested at most `depthLimit` deep.
-/

namespace Conformance.Yaml

/-! ## Scalars -/

def isNull (text : String) : Bool := text ∈ ["", "~", "null", "Null", "NULL"]

def bool? (text : String) : Option Bool :=
  if text ∈ ["true", "True", "TRUE"] then some true
  else if text ∈ ["false", "False", "FALSE"] then some false
  else none

/-- Whether a scalar is made of digits and still text, for its first digit is a needless zero. -/
def isPaddedDigits (cs : List Char) : Bool :=
  let digits := match cs with
    | '-' :: r | '+' :: r => r
    | r => r
  match digits with
  | '0' :: d :: r => (d :: r).all Char.isDigit
  | _ => false

/-- The bases by their marks. -/
def base? : List Char → Option (Nat × List Char)
  | '0' :: 'x' :: r => some (16, r)
  | '0' :: 'o' :: r => some (8, r)
  | '0' :: 'b' :: r => some (2, r)
  | _ => none

/-- The whole number of a plain scalar, of any size. -/
def integer? (cs : List Char) : Option Int :=
  let (negative, digits) := match cs with
    | '-' :: r => (true, r)
    | '+' :: r => (false, r)
    | r => (false, r)
  let signed (n : Nat) : Int := if negative then -n else n
  let marked := (base? digits).bind fun (base, r) => Digits.natural? base r
  match marked with
  | some n => some (signed n)
  | none =>
    if isPaddedDigits cs then none else (Digits.natural? 10 digits).map signed

/-- The number of a plain scalar that is not whole. -/
def float? (cs : List Char) : Option Binary64 :=
  let (unsigned, isPlus) := match cs with
    | '+' :: r => (r, true)
    | r => (r, false)
  if isPlus && (unsigned.head? = some '+' || unsigned.head? = some '-') then none
  else
    let text := String.ofList unsigned
    if text ∈ [".inf", ".Inf", ".INF"] then some (.infinite false)
    else if String.ofList cs ∈ ["-.inf", "-.Inf", "-.INF"] then some (.infinite true)
    else if String.ofList cs ∈ [".nan", ".NaN", ".NAN"] then some .nan
    else (Binary64.ofChars? unsigned).filter Binary64.isFinite

/-- The number of a whole number: it fits in 64 bits, or is beyond 128 bits and no longer whole; in
between there is none. -/
def number? (cs : List Char) : Option (Option Number) :=
  match integer? cs with
  | some n =>
    if -0x8000000000000000 ≤ n && n < 0x10000000000000000 then some (some (.int n))
    else if -0x80000000000000000000000000000000 ≤ n
        && n < 0x100000000000000000000000000000000 then some none
    else none
  | none => none

def plainValue? (text : String) : Option Datum :=
  let cs := text.toList
  if isNull text then some .null
  else
    match bool? text, number? cs with
    | some b, _ => some (.bool b)
    | none, some number => number.map .number
    | none, none =>
      match if isPaddedDigits cs then none else float? cs with
      | some x => some (.number (.float x))
      | none => some (.text text)

/-- What the tags of the core schema start with. -/
def coreTag : String := "tag:yaml.org,2002:"

/-- The value of a scalar by its tag and its style. -/
def scalarValue? (tag : Option String) (style : ScalarStyle) (text : String) : Option Datum :=
  match tag with
  | none => if style = .plain then plainValue? text else some (.text text)
  | some tag =>
    if tag = coreTag ++ "bool" then (bool? text).map .bool
    else if tag = coreTag ++ "int" then (number? text.toList).bind fun n => n.map .number
    else if tag = coreTag ++ "float" then (float? text.toList).map fun x => .number (.float x)
    else if tag = coreTag ++ "null" then
      if text ∈ ["~", "null", "Null", "NULL"] then some .null else none
    else some (.text text)

/-- The tag that stays with a value: one that starts with an exclamation mark, without it. -/
def localTag? (tag : Option String) : Option String :=
  tag.bind fun t =>
    match t.toList with
    | ['!'] => some "!"
    | '!' :: r => some (String.ofList r)
    | _ => none

/-! ## Anchors -/

namespace Node

/-- The numbers that names of anchors have at some place of a document. -/
abbrev Names := List (String × Nat)

/-- Gives an anchor its number, the count of names before it. A name that comes again is counted
once and has the later number from there on. -/
def numberAnchor (names : Names) (p : Properties) : Properties × Names :=
  match p.anchor with
  | none => (p, names)
  | some name =>
    let n := names.length
    ({ p with anchor := some (toString n) }, (name, n) :: names.filter (·.1 ≠ name))

mutual

/-- Puts numbers for the names of anchors and aliases, in document order. An alias for a name that
was not there before is an error. -/
def numbered (names : Names) : Node → Option (Node × Names)
  | .alias name => (names.lookup name).map fun n => (.alias (toString n), names)
  | .scalar p style text =>
    let (p, names) := numberAnchor names p
    some (.scalar p style text, names)
  | .sequence p items => do
    let (p, names) := numberAnchor names p
    let (items, names) ← numberedItems names items
    return (.sequence p items, names)
  | .mapping p entries => do
    let (p, names) := numberAnchor names p
    let (entries, names) ← numberedEntries names entries
    return (.mapping p entries, names)

def numberedItems (names : Names) : List Node → Option (List Node × Names)
  | [] => some ([], names)
  | n :: r => do
    let (n, names) ← numbered names n
    let (r, names) ← numberedItems names r
    return (n :: r, names)

def numberedEntries (names : Names) : List (Node × Node) → Option (List (Node × Node) × Names)
  | [] => some ([], names)
  | (k, v) :: r => do
    let (k, names) ← numbered names k
    let (v, names) ← numbered names v
    let (r, names) ← numberedEntries names r
    return ((k, v) :: r, names)

end

/-- The anchor of a node with the node itself. -/
def ownAnchor (n : Node) (p : Properties) : List (String × Node) :=
  match p.anchor with
  | some a => [(a, n)]
  | none => []

mutual

/-- The nodes with anchors, the latest first. -/
def anchored : Node → List (String × Node)
  | .alias _ => []
  | .scalar p style text => ownAnchor (.scalar p style text) p
  | .sequence p items => anchoredItems items ++ ownAnchor (.sequence p items) p
  | .mapping p entries => anchoredEntries entries ++ ownAnchor (.mapping p entries) p

def anchoredItems : List Node → List (String × Node)
  | [] => []
  | n :: r => anchoredItems r ++ anchored n

def anchoredEntries : List (Node × Node) → List (String × Node)
  | [] => []
  | (k, v) :: r => anchoredEntries r ++ anchored v ++ anchored k

end

mutual

/-- The number of scalars, aliases, and starts and ends of collections. -/
def size : Node → Nat
  | .alias _ => 1
  | .scalar .. => 1
  | .sequence _ items => sizeItems items + 2
  | .mapping _ entries => sizeEntries entries + 2

def sizeItems : List Node → Nat
  | [] => 0
  | n :: r => size n + sizeItems r

def sizeEntries : List (Node × Node) → Nat
  | [] => 0
  | (k, v) :: r => size k + size v + sizeEntries r

end

end Node

/-! ## Values -/

def depthLimit : Nat := 128

/-- How many aliases may be followed for each part of a document. -/
def aliasLimit : Nat := 100

/-- Follows an alias. The last part of the result counts the aliases that may still be followed. -/
def follow? (anchors : List (String × Node)) (left : Nat) : Node → Option (Node × Nat)
  | .alias name =>
    match left with
    | 0 => none
    | left + 1 => (anchors.lookup name).map fun n => (n, left)
  | n => some (n, left)

/-- Reads values one after the other. -/
def valueItems (value : Nat → Node → Option (Datum × Nat)) :
    Nat → List Node → Option (List Datum × Nat)
  | left, [] => some ([], left)
  | left, n :: r => do
    let (v, left) ← value left n
    let (r, left) ← valueItems value left r
    return (v :: r, left)

/-- Reads entries one after the other. A key that was there before is an error. -/
def valueEntries (value : Nat → Node → Option (Datum × Nat)) :
    List (Datum × Datum) → Nat → List (Node × Node) → Option (List (Datum × Datum) × Nat)
  | seen, left, [] => some (seen.reverse, left)
  | seen, left, (k, v) :: r => do
    let (key, left) ← value left k
    if seen.any fun e => Datum.same key e.1 then none
    else
      let (v, left) ← value left v
      valueEntries value ((key, v) :: seen) left r

/-- Puts the tag that stays with a value around it. -/
def withTag (p : Properties) (v : Datum) : Datum :=
  match localTag? p.tag with
  | some tag => .tagged tag v
  | none => v

/-- The value of a node that is no alias, with the reader of the values in it. Without one the node
may not be a collection. -/
def valueOf (inner? : Option (Nat → Node → Option (Datum × Nat))) (left : Nat) :
    Node → Option (Datum × Nat)
  | .alias _ => none
  | .scalar p style text =>
    let tag := if (localTag? p.tag).isSome then none else p.tag
    (scalarValue? tag style text).map fun v => (withTag p v, left)
  | .sequence p items => do
    let inner ← inner?
    let (items, left) ← valueItems inner left items
    return (withTag p (.list items), left)
  | .mapping p entries => do
    let inner ← inner?
    let (entries, left) ← valueEntries inner [] left entries
    return (withTag p (.map entries), left)

/-- The value of a node that may hold collections nested as deep as `depth`. -/
def value (anchors : List (String × Node)) :
    (depth : Nat) → (left : Nat) → Node → Option (Datum × Nat)
  | 0, left, n => do
    let (n, left) ← follow? anchors left n
    valueOf none left n
  | depth + 1, left, n => do
    let (n, left) ← follow? anchors left n
    valueOf (some (value anchors depth)) left n

/-- The value of a text, which holds one document or none. -/
def parse? (text : String) : Option Datum := do
  let ts ← Token.scan? text
  match ← Node.ofTokens? ts with
  | none => return .null
  | some root =>
    let (root, _) ← root.numbered []
    let (v, _) ← value root.anchored depthLimit (root.size * aliasLimit) root
    return v

end Conformance.Yaml
