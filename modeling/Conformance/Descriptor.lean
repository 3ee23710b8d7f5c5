import Conformance.Settings

/-!
# Descriptors

A plugin describes itself: its name and version, the messages it accepts with the configuration keys
and the handler of each, and the messages it emits.
-/

namespace Conformance

/-- The number by which a plugin knows the handler of a message. -/
structure HandlerRef where
  number : UInt64
  deriving Repr, DecidableEq

def HandlerRef.text (h : HandlerRef) : String := "#" ++ toString h.number.toNat

/-- A sort of message that a plugin accepts. -/
structure InboundCapability where
  name : String
  version : UInt32
  /-- The configuration keys that a message may have. -/
  configKeys : List String
  handler : HandlerRef
  deriving Repr, DecidableEq

def InboundCapability.acceptsKey (c : InboundCapability) (key : String) : Bool :=
  c.configKeys.contains key

/-- A sort of message that a plugin emits. -/
structure OutboundCapability where
  name : String
  version : UInt32
  deriving Repr, DecidableEq

/-- What a plugin says about itself. -/
structure Descriptor where
  name : String
  version : String
  inbound : List InboundCapability
  outbound : List OutboundCapability
  deriving Repr, DecidableEq

/-- The first sort of message of a name that the plugin accepts. -/
def Descriptor.inbound? (d : Descriptor) (name : String) : Option InboundCapability :=
  d.inbound.find? (·.name = name)

/-- The first sort of message of a name that the plugin emits. -/
def Descriptor.outbound? (d : Descriptor) (name : String) : Option OutboundCapability :=
  d.outbound.find? (·.name = name)

/-! ## JSON forms

The members of a JSON form stand in the order of the fields. -/

def InboundCapability.json (c : InboundCapability) : Json :=
  .obj [("name", .str c.name), ("version", .nat c.version.toNat),
    ("config_keys", Json.texts c.configKeys), ("handler", .nat c.handler.number.toNat)]

def OutboundCapability.json (c : OutboundCapability) : Json :=
  .obj [("name", .str c.name), ("version", .nat c.version.toNat)]

def Descriptor.json (d : Descriptor) : Json :=
  .obj [("name", .str d.name), ("version", .str d.version),
    ("inbound", .arr (d.inbound.map InboundCapability.json)),
    ("outbound", .arr (d.outbound.map OutboundCapability.json))]

def Reader.uint32 : Reader UInt32 := fun d => (Reader.word32 d).map UInt32.ofNat

def HandlerRef.reader : Reader HandlerRef := fun d => (Reader.uint64 d).map HandlerRef.mk

def InboundCapability.reader (dialect : Dialect) : Reader InboundCapability := fun d => do
  let keys := Reader.list dialect Reader.text
  let es ← Reader.entries dialect "an inbound capability" false
    [.of "name" Reader.text, .of "version" Reader.uint32, .of "config_keys" keys,
      .of "handler" HandlerRef.reader] d
  return ⟨← es.required "name" Reader.text, ← es.required "version" Reader.uint32,
    ← es.default "config_keys" keys [], ← es.required "handler" HandlerRef.reader⟩

def OutboundCapability.reader (dialect : Dialect) : Reader OutboundCapability := fun d => do
  let es ← Reader.entries dialect "an outbound capability" false
    [.of "name" Reader.text, .of "version" Reader.uint32] d
  return ⟨← es.required "name" Reader.text, ← es.required "version" Reader.uint32⟩

def Descriptor.reader (dialect : Dialect) : Reader Descriptor := fun d => do
  let inbound := Reader.list dialect (InboundCapability.reader dialect)
  let outbound := Reader.list dialect (OutboundCapability.reader dialect)
  let es ← Reader.entries dialect "a descriptor" false
    [.of "name" Reader.text, .of "version" Reader.text, .of "inbound" inbound,
      .of "outbound" outbound] d
  return ⟨← es.required "name" Reader.text, ← es.required "version" Reader.text,
    ← es.default "inbound" inbound [], ← es.default "outbound" outbound []⟩

/-! ## Descriptors at the boundary to native code -/

/-- Why a text at the boundary is no descriptor. -/
inductive DescriptorFault where
  | boundary (fault : BoundaryFault)
  | json
  deriving Repr, DecidableEq

def DescriptorFault.message : DescriptorFault → String
  | .boundary fault => fault.message
  | .json => "not a descriptor in JSON"

/-- The descriptor as the text a native plugin gives. -/
def Descriptor.text (d : Descriptor) : String := d.json.text

/-- The descriptor as a native plugin gives it. In place of a text that could not be handed over
there would be an empty one. -/
def Descriptor.raw (d : Descriptor) : RawText :=
  match RawText.write "descriptor" d.text with
  | .ok t => t
  | .error _ => some []

def Descriptor.ofRaw (t : RawText) : Except DescriptorFault Descriptor :=
  match RawText.read "descriptor" t with
  | .error fault => .error (.boundary fault)
  | .ok s =>
    match Json.parse? s with
    | none => .error .json
    | some v =>
      match Descriptor.reader .json (Datum.ofJson v) with
      | .ok d => .ok d
      | .error _ => .error .json

end Conformance
