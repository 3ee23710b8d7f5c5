import Conformance.Plugin

/-!
# Native plugins

A native module has entry points that take and return addresses, texts and numbers, and any of them
may unwind. As a plugin it is started with the settings as JSON text. It counts as running from the
moment its start returns, even if the descriptor it returned cannot be read; then it is stopped when
it is let go. Requests go to the function that came with the last descriptor that could be read.
-/

namespace Conformance

/-- An address in a native module; zero is none. -/
abbrev Address := Nat

/-- A descriptor at the boundary. -/
structure RawDescriptor where
  json : RawText
  /-- The function that takes requests, if there is one. -/
  deliver : Option Address
  deriving Repr, DecidableEq

/-- What the start of a native module returns. -/
structure RawStart where
  state : Address
  descriptor : RawDescriptor
  deriving Repr, DecidableEq

/-- What a native module hands to its host. -/
inductive RawEmission where
  /-- A parcel, or no parcel at all. -/
  | parcel (raw : Option RawParcel)
  /-- A parcel for no host. -/
  | nowhere
  deriving Repr, DecidableEq

/-- What arrives at the host. -/
def RawEmission.emission? : RawEmission → Option Emission
  | .nowhere => none
  | .parcel none => some .malformed
  | .parcel (some raw) =>
    match raw.toParcel with
    | .ok p => some (.parcel p)
    | .error _ => some .malformed

/-- What a call of a native entry point does. -/
structure NativeReply (τ α : Type) where
  /-- The value it returns, or the panic that unwinds it. -/
  result : Except PanicPayload α
  /-- What is emitted while it runs, in order. -/
  emissions : List RawEmission
  memory : τ

/-- A native module with memories of a type. -/
structure NativeModule (τ : Type) where
  /-- Starts with the settings as text. -/
  start : τ → Host → String → NativeReply τ RawStart
  /-- Asks for the descriptor, given the address of the state. -/
  status : τ → Host → Address → NativeReply τ RawDescriptor
  /-- Calls the function at an address with the address of the state, a handler and a request. -/
  deliver : τ → Host → Address → Address → UInt64 → String → NativeReply τ Int32
  /-- Stops, given the address of the state. -/
  stop : τ → Host → Address → NativeReply τ Unit
  /-- What the module's threads emit while the host waits for at most so many milliseconds. -/
  background : τ → Host → Nat → List RawEmission × τ

/-- A native module as a plugin keeps it. -/
structure NativeState (τ : Type) where
  memory : τ
  /-- Whether it was started and not yet stopped. -/
  running : Bool
  state : Address
  /-- The function that takes requests. -/
  deliver : Option Address

namespace NativeModule

/-- The emissions that arrive at the host. -/
def arrivals (es : List RawEmission) : List Emission := es.filterMap RawEmission.emission?

/-- Takes a descriptor in, and the function that came with it. -/
def acceptDescriptor {τ : Type} (s : NativeState τ) (raw : RawDescriptor) :
    Outcome Descriptor × NativeState τ :=
  match Descriptor.ofRaw raw.json with
  | .ok d => (.done d, { s with deliver := raw.deliver })
  | .error fault => (.failed (.invalidDescriptor fault.message), s)

/-- Starts a module, unless the settings cannot be handed to it. -/
def startPlugin {τ : Type} (m : NativeModule τ) (s : NativeState τ) (h : Host)
    (settings : Settings) : Reply (NativeState τ) Descriptor :=
  match settings.raw with
  | .error _ => ⟨.failed (.other "settings are not representable"), [], s⟩
  | .ok _ =>
    let reply := m.start s.memory h settings.text
    match reply.result with
    | .error payload =>
      ⟨.panicked payload, arrivals reply.emissions, { s with memory := reply.memory }⟩
    | .ok raw =>
      let (outcome, s) := acceptDescriptor
        { s with memory := reply.memory, running := true, state := raw.state } raw.descriptor
      ⟨outcome, arrivals reply.emissions, s⟩

def statusPlugin {τ : Type} (m : NativeModule τ) (s : NativeState τ) (h : Host) :
    Reply (NativeState τ) Descriptor :=
  let reply := m.status s.memory h s.state
  let s := { s with memory := reply.memory }
  match reply.result with
  | .error payload => ⟨.panicked payload, arrivals reply.emissions, s⟩
  | .ok raw =>
    let (outcome, s) := acceptDescriptor s raw
    ⟨outcome, arrivals reply.emissions, s⟩

def deliverPlugin {τ : Type} (m : NativeModule τ) (s : NativeState τ) (h : Host)
    (handler : HandlerRef) (request : Json) : Reply (NativeState τ) Unit :=
  match s.deliver with
  | none => ⟨.failed (.notProvided "deliver"), [], s⟩
  | some function =>
    let reply := m.deliver s.memory h function s.state handler.number request.text
    let outcome : Outcome Unit := match reply.result with
      | .error payload => .panicked payload
      | .ok code => if code = 0 then .done () else .failed (.rejected handler code)
    ⟨outcome, arrivals reply.emissions, { s with memory := reply.memory }⟩

def stopPlugin {τ : Type} (m : NativeModule τ) (s : NativeState τ) (h : Host) :
    Reply (NativeState τ) Unit :=
  if !s.running then ⟨.done (), [], s⟩
  else
    let reply := m.stop s.memory h s.state
    match reply.result with
    | .error payload =>
      ⟨.panicked payload, arrivals reply.emissions,
        { s with memory := reply.memory, running := false }⟩
    | .ok () =>
      ⟨.done (), arrivals reply.emissions,
        { s with memory := reply.memory, running := false, state := 0 }⟩

def plugin {τ : Type} (m : NativeModule τ) : Plugin (NativeState τ) where
  start := m.startPlugin
  status := m.statusPlugin
  deliver := m.deliverPlugin
  stop := m.stopPlugin
  release s h :=
    let reply := m.stopPlugin s h
    (reply.emissions, reply.state)
  background s h bound :=
    let (emissions, memory) := m.background s.memory h bound
    (arrivals emissions, { s with memory })

def initial {τ : Type} (memory : τ) : NativeState τ := ⟨memory, false, 0, none⟩

end NativeModule

end Conformance
