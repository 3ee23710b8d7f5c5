import Conformance.Channel
import Conformance.Descriptor
import Conformance.Host

/-!
# Plugins

A plugin is a state machine with four entry points: it is started once, asked for its descriptor any
number of times, handed requests, and stopped once. Every call may succeed, fail or panic, changes
the plugin's state, and emits parcels while it runs. Threads of the plugin may emit at any other
time; what they do between two steps of the host, or while the host waits, is `background`. An entry
point sees the host as it is when it is called, but does not change it: a plugin that writes to the
files of its host is not modelled.
-/

namespace Conformance

/-- A failure that a plugin reports. -/
inductive PluginFault where
  | invalidDescriptor (reason : String)
  | rejected (handler : HandlerRef) (code : Int32)
  | notProvided (entry : String)
  | other (text : String)
  deriving Repr, DecidableEq

def PluginFault.message : PluginFault → String
  | .invalidDescriptor reason => "invalid descriptor: " ++ reason
  | .rejected handler code =>
    "handler " ++ handler.text ++ " rejected request with code " ++ toString code.toInt
  | .notProvided entry => "entry point `" ++ entry ++ "` is not provided"
  | .other text => text

/-- What a panic carries. -/
inductive PanicPayload where
  | text (s : String)
  | other
  deriving Repr, DecidableEq

def PanicPayload.message : PanicPayload → String
  | .text s => s
  | .other => "non-string panic payload"

/-- How a call of an entry point ends. -/
inductive Outcome (α : Type) where
  | done (value : α)
  | failed (fault : PluginFault)
  | panicked (payload : PanicPayload)
  deriving Repr

/-- Something a plugin hands to its host: a parcel, or data that is none. -/
inductive Emission where
  | parcel (p : Parcel)
  | malformed
  deriving Repr, DecidableEq

/-- The channel after something was handed over. -/
def Channel.take (c : Channel) : Emission → Channel
  | .parcel p => c.emit p
  | .malformed => c.reject

/-- The channel after several things were handed over. -/
def Channel.takeAll (c : Channel) (es : List Emission) : Channel := es.foldl Channel.take c

/-- What a call does: how it ends, what it emits, and the state after it. -/
structure Reply (σ α : Type) where
  outcome : Outcome α
  /-- What is emitted while it runs, in order. -/
  emissions : List Emission
  state : σ

/-- A plugin with states of a type. -/
structure Plugin (σ : Type) where
  start : σ → Host → Settings → Reply σ Descriptor
  status : σ → Host → Reply σ Descriptor
  deliver : σ → Host → HandlerRef → Json → Reply σ Unit
  stop : σ → Host → Reply σ Unit
  /-- Lets go of the plugin, with or without a stop before. -/
  release : σ → Host → List Emission × σ
  /-- What the plugin's threads emit while the host waits for at most so many milliseconds; none
  pass between two steps of the host. -/
  background : σ → Host → Nat → List Emission × σ

end Conformance
