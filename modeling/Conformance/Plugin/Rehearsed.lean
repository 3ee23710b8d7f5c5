import Conformance.Plugin

/-!
# Rehearsed plugins

A rehearsed plugin plays acts that were written down beforehand: one for its start, one for its
stop, and for the other entry points one act for each call, of which the last is repeated. It keeps
a record of what it was called with.
-/

namespace Conformance

inductive ActEnd where
  | done
  | failed (fault : PluginFault)
  | panicked (payload : PanicPayload)
  deriving Repr, DecidableEq

/-- What a rehearsed plugin does in one call. -/
structure Act where
  /-- The parcels to emit, given the path of the request; there is none but for requests. -/
  emit : String → List Parcel
  ending : ActEnd
  /-- The descriptor that this and later calls return. -/
  descriptor : Option Descriptor

def Act.rest : Act := ⟨fun _ => [], .done, none⟩

/-- The acts of a rehearsed plugin. -/
structure Rehearsal where
  start : Act
  status : List Act
  deliver : List Act
  stop : Act

/-- What a rehearsed plugin remembers. -/
structure RehearsalRecord where
  /-- The descriptor it returned last, or will return first. -/
  descriptor : Descriptor
  /-- The number of calls for the descriptor. -/
  statuses : Nat
  /-- The requests it received, with their handlers. -/
  requests : List (HandlerRef × Json)
  settings : Option Settings
  stops : Nat

namespace Rehearsal

/-- The act of the call with a number; the last act is repeated. -/
def actAt (acts : List Act) (n : Nat) : Act :=
  match acts[n]? with
  | some act => act
  | none => acts.getLast?.getD .rest

/-- Plays an act that returns nothing. -/
def play (act : Act) (path : String) (record : RehearsalRecord) : Reply RehearsalRecord Unit :=
  let outcome : Outcome Unit := match act.ending with
    | .done => .done ()
    | .failed fault => .failed fault
    | .panicked payload => .panicked payload
  ⟨outcome, (act.emit path).map .parcel, record⟩

/-- Plays an act that returns a descriptor. -/
def playDescriptor (act : Act) (record : RehearsalRecord) : Reply RehearsalRecord Descriptor :=
  let emissions := (act.emit "").map .parcel
  match act.ending with
  | .done =>
    let d := act.descriptor.getD record.descriptor
    ⟨.done d, emissions, { record with descriptor := d }⟩
  | .failed fault => ⟨.failed fault, emissions, record⟩
  | .panicked payload => ⟨.panicked payload, emissions, record⟩

def pathOf (request : Json) : String := ((request.get? "path").bind Json.str?).getD ""

/-- The plugin that plays a rehearsal. -/
def plugin (r : Rehearsal) : Plugin RehearsalRecord where
  start record _ settings := playDescriptor r.start { record with settings := some settings }
  status record _ :=
    playDescriptor (actAt r.status record.statuses)
      { record with statuses := record.statuses + 1 }
  deliver record _ handler request :=
    play (actAt r.deliver record.requests.length) (pathOf request)
      { record with requests := record.requests ++ [(handler, request)] }
  stop record _ := play r.stop "" { record with stops := record.stops + 1 }
  release record _ := ([], record)
  background record _ _ := ([], record)

end Rehearsal

end Conformance
