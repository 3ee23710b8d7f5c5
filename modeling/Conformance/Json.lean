import Conformance.Binary64

/-!
# JSON values

Values as they travel between the harness and a plugin. An object is a list of members; in normal
form its keys are distinct and ascend, which is the order in which objects are written and their
keys are checked.
-/

namespace Conformance

/-- A number: whole numbers stay exact, all others are binary64. -/
inductive Number where
  | int (value : Int)
  | float (value : Binary64)
  deriving Repr, DecidableEq

inductive Json where
  | null
  | bool (value : Bool)
  | num (value : Number)
  | str (value : String)
  | arr (elements : List Json)
  | obj (members : List (String × Json))
  deriving Repr, Inhabited

namespace Json

def nat (n : Nat) : Json := .num (.int n)

def texts (ss : List String) : Json := .arr (ss.map .str)

/-- Adds a member to members with ascending keys; a key that is there gets the new value. -/
def insert (key : String) (value : Json) : List (String × Json) → List (String × Json)
  | [] => [(key, value)]
  | (k, v) :: r =>
    if key = k then (key, value) :: r
    else if key < k then (key, value) :: (k, v) :: r
    else (k, v) :: insert key value r

/-- The object with these members, the last one of each key. -/
def object (members : List (String × Json)) : Json :=
  .obj (members.foldl (fun acc m => insert m.1 m.2 acc) [])

mutual

/-- The value with every object in normal form: ascending keys, the last member of each key. -/
def normal : Json → Json
  | .arr elements => .arr (normalElements elements)
  | .obj members => object (normalMembers members)
  | v => v

def normalElements : List Json → List Json
  | [] => []
  | v :: r => normal v :: normalElements r

/-- Every member's value in normal form, the members as they were. -/
def normalMembers : List (String × Json) → List (String × Json)
  | [] => []
  | (k, v) :: r => (k, normal v) :: normalMembers r

end

/-! ## Access -/

/-- The member of an object under a key; `none` for a missing key and for any other value. -/
def get? (key : String) : Json → Option Json
  | .obj members => members.lookup key
  | _ => none

def str? : Json → Option String
  | .str s => some s
  | _ => none

def arr? : Json → Option (List Json)
  | .arr xs => some xs
  | _ => none

def obj? : Json → Option (List (String × Json))
  | .obj ms => some ms
  | _ => none

def bool? : Json → Option Bool
  | .bool b => some b
  | _ => none

def int? : Json → Option Int
  | .num (.int i) => some i
  | _ => none

/-- The whole number in the range of an unsigned word of 64 bits. -/
def word64? (v : Json) : Option Nat :=
  match v.int? with
  | some i => if 0 ≤ i && i < 0x10000000000000000 then some i.toNat else none
  | none => none

end Json

end Conformance
