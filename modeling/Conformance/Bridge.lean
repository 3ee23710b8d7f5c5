import Conformance.Plugin

/-!
# The bridge to a plugin

A bridge owns one plugin that was started, and the channel with what the plugin emits. Every call of
the plugin is guarded: a panic becomes a fault of the bridge. A plugin whose start fails never
counts as loaded, and it is not stopped; one that was loaded is stopped exactly once, by the first
`unload`, after which every use is refused.

The plugin's state stays with the bridge after the unload, so that what the plugin remembers can be
read; the plugin is not called any more.
-/

namespace Conformance

/-- What goes wrong at the boundary to a plugin. -/
inductive BridgeFault where
  | load (path : Path) (reason : String)
  | useAfterUnload
  /-- The plugin panicked. -/
  | pluginFault (entry : String) (message : String)
  /-- The plugin reported a failure. -/
  | plugin (entry : String) (fault : PluginFault)
  | capabilityNotAdvertised (name : String)
  | unsupportedConfigKey (capability : String) (key : String)
  deriving Repr, DecidableEq

def BridgeFault.message : BridgeFault → String
  | .load path reason => "cannot load plugin module " ++ Path.text path ++ ": " ++ reason
  | .useAfterUnload => "plugin used after unload"
  | .pluginFault entry message => "plugin faulted in `" ++ entry ++ "`: " ++ message
  | .plugin entry fault => "plugin `" ++ entry ++ "` failed: " ++ fault.message
  | .capabilityNotAdvertised name =>
    "capability `" ++ name ++ "` is not advertised by the plugin"
  | .unsupportedConfigKey capability key =>
    "capability `" ++ capability ++ "` does not accept config key `" ++ key ++ "`"

/-- The outcome of a guarded call of an entry point. -/
def Outcome.checked {α : Type} (entry : String) : Outcome α → Except BridgeFault α
  | .done a => .ok a
  | .failed fault => .error (.plugin entry fault)
  | .panicked payload => .error (.pluginFault entry payload.message)

/-- A plugin that was started, with the channel it emits into. -/
structure Bridge (σ : Type) where
  plugin : Plugin σ
  state : σ
  loaded : Bool
  /-- The descriptor that the plugin returned last. -/
  descriptor : Descriptor
  channel : Channel

namespace Bridge

/-- Starts a plugin. When that fails the plugin is let go, and its state is all that is left. -/
def attach {σ : Type} (h : Host) (plugin : Plugin σ) (state : σ) (settings : Settings)
    (capacity : Nat) : Except (BridgeFault × σ) (Bridge σ) :=
  let reply := plugin.start state h settings
  match reply.outcome.checked "start" with
  | .ok descriptor =>
    .ok ⟨plugin, reply.state, true, descriptor,
      (Channel.bounded capacity).takeAll reply.emissions⟩
  | .error fault => .error (fault, (plugin.release reply.state h).2)

/-- The bridge after a call: the plugin's new state, and the channel with what it emitted. -/
def after {σ α : Type} (b : Bridge σ) (reply : Reply σ α) : Bridge σ :=
  { b with state := reply.state, channel := b.channel.takeAll reply.emissions }

def currentDescriptor {σ : Type} (b : Bridge σ) : Except BridgeFault Descriptor :=
  if b.loaded then .ok b.descriptor else .error .useAfterUnload

/-- Asks the plugin for its descriptor. -/
def pollStatus {σ : Type} (b : Bridge σ) (h : Host) : Except BridgeFault Descriptor × Bridge σ :=
  if !b.loaded then (.error .useAfterUnload, b)
  else
    let reply := b.plugin.status b.state h
    match reply.outcome.checked "status" with
    | .ok d => (.ok d, { b.after reply with descriptor := d })
    | .error fault => (.error fault, b.after reply)

/-- The keys of a request's configuration, in ascending order. -/
def configKeys (request : Json) : List String :=
  match (request.get? "config").bind Json.obj? with
  | some members => members.map (·.1)
  | none => []

/-- The handler of a request, if the plugin accepts this sort of message and all of its
configuration keys. -/
def route (d : Descriptor) (capability : String) (request : Json) :
    Except BridgeFault HandlerRef :=
  match d.inbound? capability with
  | none => .error (.capabilityNotAdvertised capability)
  | some cap =>
    match (configKeys request).find? fun key => !cap.acceptsKey key with
    | some key => .error (.unsupportedConfigKey capability key)
    | none => .ok cap.handler

/-- Hands a request to the plugin, as the descriptor it has now says. -/
def deliver {σ : Type} (b : Bridge σ) (h : Host) (capability : String) (request : Json) :
    Except BridgeFault Unit × Bridge σ :=
  match b.pollStatus h with
  | (.error fault, b) => (.error fault, b)
  | (.ok d, b) =>
    match route d capability request with
    | .error fault => (.error fault, b)
    | .ok handler =>
      let reply := b.plugin.deliver b.state h handler request
      (reply.outcome.checked "deliver", b.after reply)

/-- Lets the plugin's threads run while the host does nothing for at most so many milliseconds. -/
def idle {σ : Type} (b : Bridge σ) (h : Host) (bound : Nat) : Bridge σ :=
  if !b.loaded then b
  else
    let (emissions, state) := b.plugin.background b.state h bound
    { b with state, channel := b.channel.takeAll emissions }

def drain {σ : Type} (b : Bridge σ) : Except BridgeFault (List Parcel) × Bridge σ :=
  if !b.loaded then (.error .useAfterUnload, b)
  else (.ok b.channel.drain.1, { b with channel := b.channel.drain.2 })

/-- Takes the next parcel; if none is there, waits for at most so many milliseconds. -/
def waitNext {σ : Type} (b : Bridge σ) (h : Host) (bound : Nat) :
    Except BridgeFault (Option Parcel) × Bridge σ :=
  if !b.loaded then (.error .useAfterUnload, b)
  else
    let b := if b.channel.queue.isEmpty then b.idle h bound else b
    (.ok b.channel.next.1, { b with channel := b.channel.next.2 })

def stats {σ : Type} (b : Bridge σ) : ChannelStats := b.channel.stats

/-- Stops the plugin and lets it go; a plugin that was unloaded before is left alone. -/
def unload {σ : Type} (b : Bridge σ) (h : Host) : Except BridgeFault Unit × Bridge σ :=
  if !b.loaded then (.ok (), b)
  else
    let reply := b.plugin.stop b.state h
    let stopped := b.after reply
    let (emissions, state) := b.plugin.release stopped.state h
    (reply.outcome.checked "stop",
      { stopped with state, loaded := false, channel := stopped.channel.takeAll emissions })

end Bridge

end Conformance
