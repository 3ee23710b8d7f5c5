import Conformance.Parcel

/-!
# Streams of parcels

Parcels of one sender have ascending sequences, and none joins a group after its last parcel. The
validator looks at parcels in the order of their arrival and reports at most one violation for each.
A parcel out of sequence is reported and leaves no other trace.
-/

namespace Conformance

/-- A parcel that breaks the rules of a stream, by its place of arrival. -/
inductive StreamViolation where
  | sequenceRegression (index : Nat) (sender : String) (previous current : Sequence)
  | groupAfterLast (index : Nat) (sender : String) (group : UInt64)
  deriving Repr, DecidableEq

namespace StreamViolation

def message : StreamViolation → String
  | .sequenceRegression index sender previous current =>
    "parcel #" ++ toString index ++ " from " ++ sender ++ ": sequence " ++ current.text
      ++ " does not follow " ++ previous.text
  | .groupAfterLast index sender group =>
    "parcel #" ++ toString index ++ " from " ++ sender ++ ": group " ++ toString group.toNat
      ++ " already terminated"

def json : StreamViolation → Json
  | .sequenceRegression index sender previous current =>
    Json.object [("violation", .str "sequence-regression"), ("index", .nat index),
      ("sender", .str sender), ("previous", previous.json), ("current", current.json)]
  | .groupAfterLast index sender group =>
    Json.object [("violation", .str "group-after-last"), ("index", .nat index),
      ("sender", .str sender), ("group_id", .nat group.toNat)]

/-- What the rule asks for that the parcel breaks. -/
def rule : StreamViolation → String
  | .sequenceRegression _ _ previous _ => "sequence after " ++ previous.text
  | .groupAfterLast _ _ group => "no parcel in group " ++ toString group.toNat ++ " after its last"

end StreamViolation

/-- A group: its sender and its number. -/
structure GroupKey where
  sender : String
  id : UInt64
  deriving Repr, DecidableEq

namespace GroupKey

/-- Whether a group comes before another one: by sender, then by number. -/
def before (a b : GroupKey) : Bool :=
  a.sender < b.sender || (a.sender = b.sender && a.id < b.id)

/-- Adds a group to ascending ones, unless it is there. -/
def insert (key : GroupKey) : List GroupKey → List GroupKey
  | [] => [key]
  | k :: r =>
    if key = k then k :: r
    else if key.before k then key :: k :: r
    else k :: insert key r

end GroupKey

/-- What the validator knows about the parcels so far. -/
structure StreamValidator where
  /-- The number of parcels seen. -/
  observed : Nat
  /-- The last sequence of each sender. -/
  lastSequence : List (String × Sequence)
  /-- The groups with parts and no last parcel, in ascending order. -/
  openGroups : List GroupKey
  /-- The groups with a last parcel. -/
  closed : List GroupKey
  deriving Repr, DecidableEq

namespace StreamValidator

def empty : StreamValidator := ⟨0, [], [], []⟩

/-- Notes the sequence of a sender. -/
def note (sender : String) (s : Sequence) : List (String × Sequence) → List (String × Sequence)
  | [] => [(sender, s)]
  | (k, v) :: r => if k = sender then (k, s) :: r else (k, v) :: note sender s r

/-- Looks at the group of a parcel. -/
def observeGroup (v : StreamValidator) (index : Nat) (sender : String) (group : Group) :
    StreamValidator × Option StreamViolation :=
  let key : GroupKey := ⟨sender, group.id⟩
  if v.closed.contains key then (v, some (.groupAfterLast index sender group.id))
  else
    match group.disposition with
    | .part => ({ v with openGroups := GroupKey.insert key v.openGroups }, none)
    | .last =>
      ({ v with openGroups := v.openGroups.filter (· ≠ key), closed := key :: v.closed }, none)

/-- Looks at the next parcel. -/
def observe (v : StreamValidator) (p : Parcel) : StreamValidator × Option StreamViolation :=
  let next := { v with observed := v.observed + 1 }
  let accept : StreamValidator × Option StreamViolation :=
    let noted := { next with lastSequence := note p.sender p.sequence v.lastSequence }
    match p.group with
    | some group => observeGroup noted v.observed p.sender group
    | none => (noted, none)
  match v.lastSequence.lookup p.sender with
  | some previous =>
    if previous.before p.sequence then accept
    else (next, some (.sequenceRegression v.observed p.sender previous p.sequence))
  | none => accept

/-- Looks at parcels one after the other, giving every violation. -/
def violations (v : StreamValidator) : List Parcel → List StreamViolation
  | [] => []
  | p :: r =>
    match v.observe p with
    | (v', some violation) => violation :: violations v' r
    | (v', none) => violations v' r

/-- Every violation of a whole stream, in the order of arrival. -/
def validate (parcels : List Parcel) : List StreamViolation := violations empty parcels

end StreamValidator

end Conformance
