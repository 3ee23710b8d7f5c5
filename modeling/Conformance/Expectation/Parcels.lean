import Conformance.Expectation.Placeholders
import Conformance.Parcel

/-!
# Expected parcels

What a script says about parcels it waits for. A part that is left out matches anything; a group
that is asked for, even without any detail, matches only a parcel that is in one.
-/

namespace Conformance

/-- The place a parcel should have. -/
structure SequenceExpectation where
  /-- The number that counts first. -/
  major : Option UInt64
  /-- The number that counts among equal major ones. -/
  minor : Option UInt64
  deriving Repr, DecidableEq

/-- The group a parcel should be in. -/
structure GroupExpectation where
  id : Option UInt64
  /-- Whether the group should go on. -/
  disposition : Option Disposition
  deriving Repr, DecidableEq

/-- The shape of the parcels a script waits for, and how many of them it wants. -/
structure ParcelExpectation where
  /-- Who should send the parcel, with placeholders. -/
  sender : Option String
  /-- To whom it should be sent, with placeholders. -/
  recipient : Option String
  /-- What sort of message it should be, with placeholders. -/
  type : Option String
  compression : Option Compression
  sequence : Option SequenceExpectation
  group : Option GroupExpectation
  /-- What should occur in its payload, with placeholders. -/
  payloadContains : Option String
  /-- How many parcels should match. -/
  count : Nat
  deriving Repr, DecidableEq

/-! ## Matching -/

/-- Whether a value is the one that was asked for, if any was. -/
def agrees {α : Type} [DecidableEq α] (wanted : Option α) (actual : α) : Bool :=
  wanted.all fun w => w = actual

/-- Whether a place is the one that was asked for. -/
def SequenceExpectation.accepts (e : SequenceExpectation) (s : Sequence) : Bool :=
  agrees e.major s.major && agrees e.minor s.minor

/-- Whether a group is the one that was asked for. -/
def GroupExpectation.accepts (e : GroupExpectation) (group : Option Group) : Bool :=
  group.any fun g => agrees e.id g.id && agrees e.disposition g.disposition

namespace ParcelExpectation

/-- Whether a text is the one that was asked for, once placeholders are filled in. -/
def textAgrees (ps : Placeholders) (wanted : Option String) (actual : String) : Bool :=
  agrees (wanted.map ps.expand) actual

/-- Whether the wanted text occurs in the payload. A compressed payload has no text. -/
def payloadAgrees (ps : Placeholders) (wanted : Option String) (p : Parcel) : Bool :=
  wanted.all fun needle => p.payloadText?.any fun text => Text.occurs (ps.expand needle) text

def accepts (e : ParcelExpectation) (ps : Placeholders) (p : Parcel) : Bool :=
  textAgrees ps e.sender p.sender && textAgrees ps e.recipient p.recipient
    && textAgrees ps e.type p.type && agrees e.compression p.compression
    && e.sequence.all (·.accepts p.sequence) && e.group.all (·.accepts p.group)
    && payloadAgrees ps e.payloadContains p

/-! ## For a reader -/

/-- A number, or a star where any will do. -/
def orStar (n : Option Nat) : String := (n.map toString).getD "*"

/-- What is asked for, part by part. -/
def parts (e : ParcelExpectation) (ps : Placeholders) : List String :=
  let text (key : String) (value : Option String) := value.map fun v => key ++ "=" ++ ps.expand v
  [text "sender" e.sender, text "recipient" e.recipient, text "type" e.type,
    e.compression.map fun c => "compression=" ++ c.title,
    e.sequence.map fun s =>
      "seq=" ++ orStar (s.major.map (·.toNat)) ++ "." ++ orStar (s.minor.map (·.toNat)),
    e.group.map fun g =>
      "group=" ++ orStar (g.id.map (·.toNat)) ++ ":" ++ (g.disposition.map (·.name)).getD "*",
    e.payloadContains.map fun v => "payload~" ++ Text.quoted (ps.expand v)].filterMap id

def describe (e : ParcelExpectation) (ps : Placeholders) : String :=
  toString e.count ++ " parcel(s) with " ++ " ".intercalate (e.parts ps)

end ParcelExpectation

/-! ## In documents -/

def SequenceExpectation.reader (dialect : Dialect) : Reader SequenceExpectation := fun d => do
  let number := Reader.optional Reader.uint64
  let es ← Reader.entries dialect "struct SequenceExpectation" true
    [.of "major" number, .of "minor" number] d
  return ⟨← es.optional "major" Reader.uint64, ← es.optional "minor" Reader.uint64⟩

def GroupExpectation.reader (dialect : Dialect) : Reader GroupExpectation := fun d => do
  let disposition := Reader.choice dialect Disposition.names
  let es ← Reader.entries dialect "struct GroupExpectation" true
    [.of "id" (Reader.optional Reader.uint64), .of "disposition" (Reader.optional disposition)] d
  return ⟨← es.optional "id" Reader.uint64, ← es.optional "disposition" disposition⟩

/-- An expectation in a document. One parcel is wanted where no number is given. -/
def ParcelExpectation.reader (dialect : Dialect) : Reader ParcelExpectation := fun d => do
  let text := Reader.optional Reader.text
  let compression := Reader.choice dialect Compression.names
  let sequence := SequenceExpectation.reader dialect
  let group := GroupExpectation.reader dialect
  let es ← Reader.entries dialect "struct ParcelExpectation" true
    [.of "sender" text, .of "recipient" text, .of "type" text,
      .of "compression" (Reader.optional compression), .of "sequence" (Reader.optional sequence),
      .of "group" (Reader.optional group), .of "payload_contains" text,
      .of "count" Reader.count] d
  return {
    sender := ← es.optional "sender" Reader.text
    recipient := ← es.optional "recipient" Reader.text
    type := ← es.optional "type" Reader.text
    compression := ← es.optional "compression" compression
    sequence := ← es.optional "sequence" sequence
    group := ← es.optional "group" group
    payloadContains := ← es.optional "payload_contains" Reader.text
    count := ← es.default "count" Reader.count 1 }

end Conformance
