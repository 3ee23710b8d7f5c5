import Conformance.Json
import Conformance.Text.Quoted

/-!
# Document values

A `Datum` is what a document says before anybody asks what it means: scalars, lists, mappings with
keys of any kind in document order, and values under a tag. Scripts are read into it, and every
JSON value is one too.
-/

namespace Conformance

/-- A value of a document. -/
inductive Datum where
  | null
  | bool (value : Bool)
  | number (value : Number)
  | text (value : String)
  | list (items : List Datum)
  | map (entries : List (Datum × Datum))
  | tagged (tag : String) (value : Datum)
  deriving Repr, Inhabited

namespace Datum

/-! ## Equality of keys -/

/-- Equality of numbers in documents: the kinds are kept apart, and the zeros of binary64 are one
value. -/
def sameNumber : Number → Number → Bool
  | .int i, .int j => i = j
  | .float (.finite _ 0 _), .float (.finite _ 0 _) => true
  | .float x, .float y => x = y
  | _, _ => false

mutual

/-- Whether two values are the same key. Mappings are compared without regard to order. -/
def same : Datum → Datum → Bool
  | .null, .null => true
  | .bool a, .bool b => a = b
  | .number a, .number b => sameNumber a b
  | .text a, .text b => a = b
  | .list xs, .list ys => sameList xs ys
  | .map xs, .map ys => xs.length = ys.length && sameEntries xs ys
  | .tagged t v, .tagged u w => t = u && same v w
  | _, _ => false

def sameList : List Datum → List Datum → Bool
  | [], [] => true
  | x :: xs, y :: ys => same x y && sameList xs ys
  | _, _ => false

/-- Whether every entry of the first mapping is one of the second. -/
def sameEntries : List (Datum × Datum) → List (Datum × Datum) → Bool
  | [], _ => true
  | (k, v) :: r, ys => ys.any (fun e => same k e.1 && same v e.2) && sameEntries r ys

end

/-! ## Mappings -/

def lookup (key : String) (entries : List (Datum × Datum)) : Option Datum :=
  (entries.find? fun e => same (.text key) e.1).map (·.2)

/-- Takes an entry out of a mapping: the last entry moves into its place. -/
def remove (key : String) (entries : List (Datum × Datum)) :
    Option Datum × List (Datum × Datum) :=
  match entries.findIdx? fun e => same (.text key) e.1 with
  | none => (none, entries)
  | some i =>
    let value := entries[i]?.map (·.2)
    match entries.getLast? with
    | some last =>
      (value, if i + 1 = entries.length then entries.dropLast else entries.dropLast.set i last)
    | none => (value, entries)

/-- The value below any number of tags. -/
def untag : Datum → Datum
  | .tagged _ v => untag v
  | v => v

/-! ## JSON values as documents -/

mutual

def ofJson : Json → Datum
  | .null => .null
  | .bool b => .bool b
  | .num n => .number n
  | .str s => .text s
  | .arr xs => .list (ofElements xs)
  | .obj ms => .map (ofMembers ms)

def ofElements : List Json → List Datum
  | [] => []
  | v :: r => ofJson v :: ofElements r

def ofMembers : List (String × Json) → List (Datum × Datum)
  | [] => []
  | (k, v) :: r => (.text k, ofJson v) :: ofMembers r

end

/-! ## Naming a value in a message -/

/-- What a message calls a value of the wrong kind. -/
def shown : Datum → String
  | .null => "unit value"
  | .bool b => "boolean `" ++ (if b then "true" else "false") ++ "`"
  | .number (.int i) => "integer `" ++ toString i ++ "`"
  | .number (.float x) => "floating point `" ++ x.pointText ++ "`"
  | .text s => "string " ++ Text.quoted s
  | .list _ => "sequence"
  | .map _ => "map"
  | .tagged .. => "enum"

end Datum

end Conformance
