import Conformance.Datum.Decode
import Conformance.Instant
import Conformance.Text.Utf8

/-!
# Parcels

A parcel is one message from a plugin to the host. Its sequence places it among the parcels of its
sender, and a group ties it to other parcels of the same sender; the last parcel of a group says so.
-/

namespace Conformance

/-! ## The parts of a parcel -/

inductive Compression where
  | none
  | gzip
  | zstd
  | lz4
  deriving Repr, DecidableEq

namespace Compression

def name : Compression → String
  | .none => "none"
  | .gzip => "gzip"
  | .zstd => "zstd"
  | .lz4 => "lz4"

/-- The title of a compression, as an expectation shows it. -/
def title : Compression → String
  | .none => "None"
  | .gzip => "Gzip"
  | .zstd => "Zstd"
  | .lz4 => "Lz4"

def names : List (String × Compression) :=
  [("none", .none), ("gzip", .gzip), ("zstd", .zstd), ("lz4", .lz4)]

def code : Compression → UInt32
  | .none => 0
  | .gzip => 1
  | .zstd => 2
  | .lz4 => 3

def ofCode? (n : UInt32) : Option Compression :=
  if n = 0 then some .none
  else if n = 1 then some .gzip
  else if n = 2 then some .zstd
  else if n = 3 then some .lz4
  else Option.none

end Compression

/-- The place of a parcel among those of its sender: the major number counts first. -/
structure Sequence where
  /-- The number that counts first. -/
  major : UInt64
  /-- The number that counts among equal major ones. -/
  minor : UInt64
  deriving Repr, DecidableEq

namespace Sequence

def before (a b : Sequence) : Bool :=
  a.major < b.major || (a.major = b.major && a.minor < b.minor)

def text (s : Sequence) : String := toString s.major.toNat ++ "." ++ toString s.minor.toNat

end Sequence

/-- Whether more parcels of a group are to follow. -/
inductive Disposition where
  | part
  | last
  deriving Repr, DecidableEq

namespace Disposition

def name : Disposition → String
  | .part => "part"
  | .last => "last"

def title : Disposition → String
  | .part => "Part"
  | .last => "Last"

def names : List (String × Disposition) := [("part", .part), ("last", .last)]

end Disposition

/-- The membership of a parcel in a group. -/
structure Group where
  id : UInt64
  /-- Whether the group goes on. -/
  disposition : Disposition
  deriving Repr, DecidableEq

/-- A message from a plugin. -/
structure Parcel where
  /-- When the parcel was made. -/
  time : Instant
  sender : String
  /-- To whom it is sent. -/
  recipient : String
  /-- What sort of message it is. -/
  type : String
  compression : Compression
  /-- Its place among the parcels of its sender. -/
  sequence : Sequence
  /-- Its group, if it is in one. -/
  group : Option Group
  payload : Bytes
  deriving Repr, DecidableEq

namespace Parcel

/-- The payload as text; one that is compressed has none. -/
def payloadText? (p : Parcel) : Option String :=
  if p.compression = .none then Utf8.decode? p.payload else none

def text (p : Parcel) : String :=
  let group := match p.group with
    | some g => " group=" ++ toString g.id.toNat ++ ":" ++ g.disposition.title
    | none => ""
  p.sender ++ " -> " ++ p.recipient ++ " type=" ++ p.type ++ " seq=" ++ p.sequence.text ++ group
    ++ " payload=" ++ toString p.payload.length ++ "B"

end Parcel

/-! ## JSON forms -/

def Sequence.json (s : Sequence) : Json :=
  Json.object [("major", .nat s.major.toNat), ("minor", .nat s.minor.toNat)]

def Group.json (g : Group) : Json :=
  Json.object [("id", .nat g.id.toNat), ("disposition", .str g.disposition.name)]

/-- The members of a parcel's JSON form. -/
def Parcel.members (p : Parcel) : List (String × Json) :=
  let group := match p.group with
    | some g => [("group", g.json)]
    | none => []
  [("time", .str p.time.text), ("sender", .str p.sender), ("recipient", .str p.recipient),
    ("type", .str p.type), ("compression", .str p.compression.name),
    ("sequence", p.sequence.json)] ++ group
    ++ [("payload", .arr (p.payload.map fun b => .nat b.toNat))]

def Parcel.json (p : Parcel) : Json := Json.object p.members

def Reader.uint64 : Reader UInt64 := fun d => (Reader.word64 d).map UInt64.ofNat

def Reader.byte : Reader UInt8 := fun d => (Reader.word8 d).map UInt8.ofNat

def Instant.reader : Reader Instant := fun d =>
  match Reader.textAs "a formatted date and time string or a unix timestamp" d with
  | .error e => .error e
  | .ok s =>
    match Instant.ofText? s with
    | some t => .ok t
    | none => .error (.other "input contains invalid characters")

def Sequence.reader (dialect : Dialect) : Reader Sequence := fun d => do
  let es ← Reader.entries dialect "a place" false
    [.of "major" Reader.uint64, .of "minor" Reader.uint64] d
  return ⟨← es.required "major" Reader.uint64, ← es.required "minor" Reader.uint64⟩

def Group.reader (dialect : Dialect) : Reader Group := fun d => do
  let disposition := Reader.choice dialect Disposition.names
  let es ← Reader.entries dialect "a group" false
    [.of "id" Reader.uint64, .of "disposition" disposition] d
  return ⟨← es.required "id" Reader.uint64, ← es.required "disposition" disposition⟩

def Parcel.reader (dialect : Dialect) : Reader Parcel := fun d => do
  let compression := Reader.choice dialect Compression.names
  let sequence := Sequence.reader dialect
  let group := Reader.optional (Group.reader dialect)
  let payload := Reader.list dialect Reader.byte
  let es ← Reader.entries dialect "a parcel" false
    [.of "time" Instant.reader, .of "sender" Reader.text, .of "recipient" Reader.text,
      .of "type" Reader.text, .of "compression" compression, .of "sequence" sequence,
      .of "group" group, .of "payload" payload] d
  return {
    time := ← es.required "time" Instant.reader
    sender := ← es.required "sender" Reader.text
    recipient := ← es.required "recipient" Reader.text
    type := ← es.required "type" Reader.text
    compression := ← es.required "compression" compression
    sequence := ← es.required "sequence" sequence
    group := ← es.default "group" group none
    payload := ← es.default "payload" payload [] }

end Conformance
