import Conformance.Datum

/-!
# Reading typed values from documents

A reader turns a document value into a value of a type or says what is wrong with it. Records are
read entry by entry in document order, so the fault that is reported is the first one of the
document; only then are fields asked for that are not there, in the order of the record.

Two dialects differ in what may stand for what. In a script, null is also the empty list and the
empty mapping, and tags are ignored where a plain value is wanted. In JSON, a record may be listed
by position, and a variant may be an object with one member.
-/

namespace Conformance

/-- What is wrong with a document value. -/
inductive Fault where
  | wrongType (got : String) (want : String)
  | wrongValue (got : String) (want : String)
  | wrongLength (got : Nat) (want : String)
  | missingField (name : String)
  | duplicateField (name : String)
  | unknownField (name : String) (known : List String)
  | unknownVariant (name : String) (known : List String)
  | noVariant (choice : String)
  | taggedChoice
  | other (reason : String)
  deriving Repr, DecidableEq

namespace Fault

/-- Names for a message: `a`, then `a or b`, then `one of a, b, c`. -/
def alternatives : List String → String
  | [] => ""
  | [a] => "`" ++ a ++ "`"
  | [a, b] => "`" ++ a ++ "` or `" ++ b ++ "`"
  | names => "one of " ++ ", ".intercalate (names.map fun n => "`" ++ n ++ "`")

def message : Fault → String
  | .wrongType got want => "invalid type: " ++ got ++ ", expected " ++ want
  | .wrongValue got want => "invalid value: " ++ got ++ ", expected " ++ want
  | .wrongLength got want => "invalid length " ++ toString got ++ ", expected " ++ want
  | .missingField name => "missing field `" ++ name ++ "`"
  | .duplicateField name => "duplicate field `" ++ name ++ "`"
  | .unknownField name known => "unknown field `" ++ name ++ "`, expected " ++ alternatives known
  | .unknownVariant name known =>
    "unknown variant `" ++ name ++ "`, expected " ++ alternatives known
  | .noVariant choice => "data did not match any variant of untagged enum " ++ choice
  | .taggedChoice => "untagged and internally tagged enums do not support enum input"
  | .other reason => reason

end Fault

/-- What may stand for what in a document. -/
structure Dialect where
  /-- Null is also the empty list and the empty mapping, and tags may be ignored. -/
  lenient : Bool
  /-- A record may be a list of its fields, and a variant an object with one member. -/
  positional : Bool
  /-- What a message asks for where the name of a variant is wanted. -/
  variantWant : String
  deriving Repr, DecidableEq

def Dialect.script : Dialect := ⟨true, false, "a Value::Tagged enum"⟩

def Dialect.json : Dialect := ⟨false, true, "string or map"⟩

abbrev Reader (α : Type) := Datum → Except Fault α

namespace Reader

/-- The complaint about a value of the wrong kind. -/
def wrong {α : Type} (d : Datum) (want : String) : Except Fault α :=
  .error (.wrongType d.shown want)

/-! ## Scalars -/

def bool : Reader Bool := fun d =>
  match d.untag with
  | .bool b => .ok b
  | v => wrong v "a boolean"

def textAs (want : String) : Reader String := fun d =>
  match d.untag with
  | .text s => .ok s
  | v => wrong v want

def text : Reader String := textAs "a string"

def int (low high : Int) (want : String) : Reader Int := fun d =>
  match d.untag with
  | .number (.int i) =>
    if low ≤ i && i ≤ high then .ok i
    else .error (.wrongValue (Datum.number (.int i)).shown want)
  | v => wrong v want

/-- A natural number below a bound. -/
def nat (bound : Nat) (want : String) : Reader Nat := fun d =>
  (int 0 (bound - 1) want d).map Int.toNat

def word8 : Reader Nat := nat 0x100 "u8"
def word32 : Reader Nat := nat 0x100000000 "u32"
def word64 : Reader Nat := nat 0x10000000000000000 "u64"
/-- A count, which a word of 64 bits holds. -/
def count : Reader Nat := nat 0x10000000000000000 "usize"
def signed64 : Reader Int := int (-0x8000000000000000) 0x7FFFFFFFFFFFFFFF "i64"

/-! ## Containers -/

def optional {α : Type} (reader : Reader α) : Reader (Option α) := fun d =>
  match d with
  | .null => .ok none
  | d => (reader d).map some

/-- Reads every value of a list, up to the first fault. -/
def each {α : Type} (reader : Reader α) : List Datum → Except Fault (List α)
  | [] => .ok []
  | d :: r =>
    match reader d with
    | .error e => .error e
    | .ok a => (each reader r).map (a :: ·)

def list {α : Type} (dialect : Dialect) (reader : Reader α) : Reader (List α) := fun d =>
  match d.untag with
  | .list xs => each reader xs
  | .null => if dialect.lenient then .ok [] else wrong .null "a sequence"
  | v => wrong v "a sequence"

def named {α : Type} (choices : List (String × α)) (name : String) : Except Fault α :=
  match choices.lookup name with
  | some a => .ok a
  | none => .error (.unknownVariant name (choices.map (·.1)))

/-- One of several names. -/
def choice {α : Type} (dialect : Dialect) (choices : List (String × α)) : Reader α := fun d =>
  match d with
  | .text name => named choices name
  | .tagged name v =>
    match named choices name with
    | .error e => .error e
    | .ok a => match v with
      | .null => .ok a
      | v => wrong v "unit"
  | .map [(.text name, v)] =>
    if dialect.positional then
      match named choices name with
      | .error e => .error e
      | .ok a => match v with
        | .null => .ok a
        | v => wrong v "unit"
    else wrong d dialect.variantWant
  | d => wrong d dialect.variantWant

/-! ## Records -/

/-- A field of a record: its name, and whether a value will do for it. -/
structure Field where
  name : String
  /-- What is wrong with a value of the field, if anything. -/
  accepts : Datum → Except Fault Unit

def Field.of {α : Type} (name : String) (reader : Reader α) : Field :=
  ⟨name, fun d => (reader d).map fun _ => ()⟩

/-- Walks over the entries of a record in document order, up to the first fault: a key that is no
text, a field that was there before, a field of another record where the record is closed, a value
that its field does not accept. Gives the entries of the record's own fields. -/
def scan (closed : Bool) (fields : List Field) :
    List String → List (Datum × Datum) → Except Fault (List (String × Datum))
  | _, [] => .ok []
  | seen, (k, v) :: r =>
    match textAs "field identifier" k with
    | .error e => .error e
    | .ok name =>
      match fields.find? (·.name = name) with
      | none =>
        if closed then .error (.unknownField name (fields.map (·.name)))
        else scan closed fields seen r
      | some f =>
        if seen.contains name then .error (.duplicateField name)
        else
          match f.accepts v with
          | .error e => .error e
          | .ok () => (scan closed fields (name :: seen) r).map ((name, v) :: ·)

/-- A record listed by position: every value has to do for the field at its place. -/
def scanList (want : String) (size : Nat) :
    List Field → List Datum → Except Fault (List (String × Datum))
  | _, [] => .ok []
  | [], _ :: r => .error (.wrongLength (size + r.length + 1) want)
  | f :: fs, v :: r =>
    match f.accepts v with
    | .error e => .error e
    | .ok () => (scanList want (size + 1) fs r).map ((f.name, v) :: ·)

/-- The entries of a record by field name. A listed record leaves its last fields out. -/
structure Entries where
  values : List (String × Datum)
  /-- The number of values, if the record was listed by position. -/
  listed : Option Nat
  /-- What the record is called. -/
  want : String

/-- The entries of a record, each accepted by its field. -/
def entries (dialect : Dialect) (want : String) (closed : Bool) (fields : List Field) :
    Reader Entries := fun d =>
  match d.untag with
  | .map es => (scan closed fields [] es).map (⟨·, none, want⟩)
  | .null =>
    if dialect.lenient then .ok ⟨[], none, want⟩ else wrong .null want
  | .list xs =>
    if dialect.positional then (scanList want 0 fields xs).map (⟨·, some xs.length, want⟩)
    else wrong (.list xs) want
  | v => wrong v want

def Entries.required {α : Type} (es : Entries) (name : String) (reader : Reader α) :
    Except Fault α :=
  match es.values.lookup name, es.listed with
  | some d, _ => reader d
  | none, some n => .error (.wrongLength n es.want)
  | none, none => .error (.missingField name)

/-- A field that may be null or, by name, left out. -/
def Entries.optional {α : Type} (es : Entries) (name : String) (reader : Reader α) :
    Except Fault (Option α) :=
  match es.values.lookup name, es.listed with
  | some d, _ => Reader.optional reader d
  | none, some n => .error (.wrongLength n es.want)
  | none, none => .ok none

/-- A field that may be left out and then has a value of its own. -/
def Entries.default {α : Type} (es : Entries) (name : String) (reader : Reader α) (value : α) :
    Except Fault α :=
  match es.values.lookup name with
  | some d => reader d
  | none => .ok value

/-! ## JSON inside a document -/

mutual

/-- Any value that JSON can express. A number that is none becomes null. -/
def json : Datum → Except Fault Json
  | .null => .ok .null
  | .bool b => .ok (.bool b)
  | .number (.int i) => .ok (.num (.int i))
  | .number (.float x) => .ok (if x.isFinite then .num (.float x) else .null)
  | .text s => .ok (.str s)
  | .list xs => (jsonList xs).map .arr
  | .map es => (jsonEntries "a string key" es).map Json.object
  | .tagged t v => wrong (.tagged t v) "any valid JSON value"

def jsonList : List Datum → Except Fault (List Json)
  | [] => .ok []
  | d :: r =>
    match json d with
    | .error e => .error e
    | .ok v => (jsonList r).map (v :: ·)

/-- Every entry of a mapping as a member; `want` is asked of the first key. -/
def jsonEntries (want : String) : List (Datum × Datum) → Except Fault (List (String × Json))
  | [] => .ok []
  | (k, d) :: r =>
    match textAs want k with
    | .error e => .error e
    | .ok name =>
      match json d with
      | .error e => .error e
      | .ok v => (jsonEntries "a string" r).map ((name, v) :: ·)

end

def jsonObject (dialect : Dialect) : Reader (List (String × Json)) := fun d =>
  let members (es : List (Datum × Datum)) : Except Fault (List (String × Json)) :=
    (jsonEntries "a string" es).map fun ms => ms.foldl (fun acc m => Json.insert m.1 m.2 acc) []
  match d.untag with
  | .map es => members es
  | .null => if dialect.lenient then .ok [] else wrong .null "a map"
  | v => wrong v "a map"

/-! ## Choices by shape -/

mutual

/-- Whether the value holds a tag anywhere; a choice by shape does not look below one. -/
def hasTag : Datum → Bool
  | .tagged .. => true
  | .list xs => anyTag xs
  | .map es => anyEntryTag es
  | _ => false

def anyTag : List Datum → Bool
  | [] => false
  | d :: r => hasTag d || anyTag r

/-- Whether some key or value of a mapping holds a tag. -/
def anyEntryTag : List (Datum × Datum) → Bool
  | [] => false
  | (k, v) :: r => hasTag k || hasTag v || anyEntryTag r

end

/-- The first of several readings that will do. -/
def byShape {α : Type} (name : String) (readings : List (Datum → Option α)) : Reader α := fun d =>
  if hasTag d then .error .taggedChoice
  else
    match readings.findSome? fun reading => reading d with
    | some a => .ok a
    | none => .error (.noVariant name)

end Reader

end Conformance
