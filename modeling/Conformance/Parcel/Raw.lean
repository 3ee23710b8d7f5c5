import Conformance.Parcel

/-!
# Parcels at the boundary to native code

A native plugin hands a parcel over as numbers, texts that end at their first zero byte, and a block
of bytes; any of the texts and the block may be missing. Whatever does not make a parcel is turned
away with the first thing that is wrong with it.
-/

namespace Conformance

/-- What is wrong with data at the boundary to native code. -/
inductive BoundaryFault where
  | missing (field : String)
  | notUtf8 (field : String)
  | interiorNul (field : String)
  | compression (code : UInt32)
  | disposition (code : UInt32)
  | time (millis : Int64)
  deriving Repr, DecidableEq

def BoundaryFault.message : BoundaryFault → String
  | .missing field => "null " ++ field ++ " pointer"
  | .notUtf8 field => field ++ " is not valid UTF-8"
  | .interiorNul field => field ++ " contains an interior NUL"
  | .compression code => "unknown compression code " ++ toString code.toNat
  | .disposition code => "unknown group disposition " ++ toString code.toNat
  | .time millis => "timestamp " ++ toString millis.toInt ++ "ms out of range"

/-- A text at the boundary: the bytes from its start on, or nothing. It ends before its first zero
byte. -/
abbrev RawText := Option Bytes

namespace RawText

/-- The bytes before the first zero byte. -/
def cut (bs : Bytes) : Bytes := bs.takeWhile (· ≠ 0)

/-- The text of a field. -/
def read (field : String) (t : RawText) : Except BoundaryFault String :=
  match t with
  | none => .error (.missing field)
  | some bs =>
    match Utf8.decode? (cut bs) with
    | some s => .ok s
    | none => .error (.notUtf8 field)

/-- A text for the other side, which must not hold a zero byte. -/
def write (field : String) (s : String) : Except BoundaryFault RawText :=
  if (Utf8.encode s).contains 0 then .error (.interiorNul field) else .ok (some (Utf8.encode s))

end RawText

/-- A block of bytes at the boundary: bytes, or nothing with a length all the same. -/
inductive RawBlock where
  | missing (length : Nat)
  | bytes (content : Bytes)
  deriving Repr, DecidableEq

/-- A parcel at the boundary. -/
structure RawParcel where
  /-- Milliseconds since 1970. -/
  time : Int64
  sender : RawText
  recipient : RawText
  type : RawText
  compression : UInt32
  /-- The first number of the sequence. -/
  major : UInt64
  /-- The second number of the sequence. -/
  minor : UInt64
  /-- No group, a part of one, or its last parcel. -/
  disposition : UInt32
  group : UInt64
  payload : RawBlock
  deriving Repr, DecidableEq

namespace RawParcel

def groupNone : UInt32 := 0
def groupPart : UInt32 := 1
def groupLast : UInt32 := 2

/-- The bytes of a payload. -/
def readPayload : RawBlock → Except BoundaryFault Bytes
  | .bytes content => .ok content
  | .missing 0 => .ok []
  | .missing _ => .error (.missing "payload")

def readGroup (disposition : UInt32) (id : UInt64) : Except BoundaryFault (Option Group) :=
  if disposition = groupNone then .ok none
  else if disposition = groupPart then .ok (some ⟨id, .part⟩)
  else if disposition = groupLast then .ok (some ⟨id, .last⟩)
  else .error (.disposition disposition)

/-- The parcel that was handed over, or the first thing that is wrong with it. -/
def toParcel (raw : RawParcel) : Except BoundaryFault Parcel := do
  let sender ← RawText.read "sender" raw.sender
  let recipient ← RawText.read "recipient" raw.recipient
  let type ← RawText.read "type" raw.type
  let compression ← match Compression.ofCode? raw.compression with
    | some c => Except.ok c
    | none => .error (.compression raw.compression)
  let time ← match Instant.ofMillis? raw.time.toInt with
    | some t => Except.ok t
    | none => .error (.time raw.time)
  let payload ← readPayload raw.payload
  let group ← readGroup raw.disposition raw.group
  return ⟨time, sender, recipient, type, compression, ⟨raw.major, raw.minor⟩, group, payload⟩

/-- The number for the membership in a group, and the number of the group. -/
def groupFields : Option Group → UInt32 × UInt64
  | none => (groupNone, 0)
  | some ⟨id, .part⟩ => (groupPart, id)
  | some ⟨id, .last⟩ => (groupLast, id)

/-- A parcel as it is handed over. Its time is rounded down to milliseconds. -/
def ofParcel (p : Parcel) : Except BoundaryFault RawParcel := do
  let sender ← RawText.write "sender" p.sender
  let recipient ← RawText.write "recipient" p.recipient
  let type ← RawText.write "type" p.type
  return {
    time := Int64.ofInt p.time.millis
    sender, recipient, type
    compression := p.compression.code
    major := p.sequence.major
    minor := p.sequence.minor
    disposition := (groupFields p.group).1
    group := (groupFields p.group).2
    payload := if p.payload = [] then .missing 0 else .bytes p.payload }

end RawParcel

end Conformance
