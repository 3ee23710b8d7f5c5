import Conformance.Proofs.Plugin.Projection

/-!
# Plugins whose calls are recorded

What a host calls cannot be read off its answers alone. A recorded
plugin does exactly what the plugin below it does and keeps a list of
its calls beside the plugin's state, so that a statement about calls is
a statement about that list. Recording changes neither an answer nor an
emission (`recorded_projects`), and whatever runs on the recorded plugin
can be read back as a run of the plugin itself (`Bridge.unrecorded`).
-/

namespace Conformance

/-- A call of a plugin: one of the four entry points, or the moment in
which the plugin is let go. -/
inductive PluginCall where
  | start (settings : Settings)
  | status
  | deliver (handler : HandlerRef) (request : Json)
  | stop
  | release

/-- The calls that come between the start and the stop. -/
def PluginCall.isQuery : PluginCall → Bool
  | .status | .deliver .. => true
  | .start _ | .stop | .release => false

/-- The state of a recorded plugin: its own, and the calls so far in
order. -/
structure Recorded (σ : Type) where
  state : σ
  calls : List PluginCall

/-- The reply of a call that is put on record. -/
def Reply.onRecord {σ α : Type} (reply : Reply σ α) (calls : List PluginCall) :
    Reply (Recorded σ) α :=
  ⟨reply.outcome, reply.emissions, ⟨reply.state, calls⟩⟩

/-- The plugin with its calls recorded. What its threads do is no call. -/
def Plugin.recorded {σ : Type} (p : Plugin σ) : Plugin (Recorded σ) where
  start s h settings := (p.start s.state h settings).onRecord (s.calls ++ [.start settings])
  status s h := (p.status s.state h).onRecord (s.calls ++ [.status])
  deliver s h handler request :=
    (p.deliver s.state h handler request).onRecord (s.calls ++ [.deliver handler request])
  stop s h := (p.stop s.state h).onRecord (s.calls ++ [.stop])
  release s h := ((p.release s.state h).1, ⟨(p.release s.state h).2, s.calls ++ [.release]⟩)
  background s h bound :=
    ((p.background s.state h bound).1, ⟨(p.background s.state h bound).2, s.calls⟩)

section

variable {σ : Type} (p : Plugin σ) (s : Recorded σ) (h : Host)

@[simp] theorem recorded_start (settings : Settings) :
    p.recorded.start s h settings
      = (p.start s.state h settings).onRecord (s.calls ++ [.start settings]) := rfl

@[simp] theorem recorded_status :
    p.recorded.status s h = (p.status s.state h).onRecord (s.calls ++ [.status]) := rfl

@[simp] theorem recorded_deliver (handler : HandlerRef) (request : Json) :
    p.recorded.deliver s h handler request
      = (p.deliver s.state h handler request).onRecord
          (s.calls ++ [.deliver handler request]) := rfl

@[simp] theorem recorded_stop :
    p.recorded.stop s h = (p.stop s.state h).onRecord (s.calls ++ [.stop]) := rfl

@[simp] theorem recorded_release :
    p.recorded.release s h
      = ((p.release s.state h).1, ⟨(p.release s.state h).2, s.calls ++ [.release]⟩) := rfl

@[simp] theorem recorded_background (bound : Nat) :
    p.recorded.background s h bound
      = ((p.background s.state h bound).1, ⟨(p.background s.state h bound).2, s.calls⟩) := rfl

end

section

variable {σ α : Type} (reply : Reply σ α) (calls : List PluginCall)

@[simp] theorem Reply.onRecord_outcome : (reply.onRecord calls).outcome = reply.outcome := rfl

@[simp] theorem Reply.onRecord_emissions :
    (reply.onRecord calls).emissions = reply.emissions := rfl

@[simp] theorem Reply.onRecord_state :
    (reply.onRecord calls).state = ⟨reply.state, calls⟩ := rfl

end

theorem recorded_projects {σ : Type} (p : Plugin σ) : p.recorded.Projects p Recorded.state :=
  ⟨fun _ _ _ => rfl, fun _ _ => rfl, fun _ _ _ _ => rfl, fun _ _ => rfl, fun _ _ => rfl,
    fun _ _ _ => rfl⟩

/-- The bridge to the plugin itself, of a bridge to the recorded one. -/
def Bridge.unrecorded {σ : Type} (b : Bridge (Recorded σ)) (p : Plugin σ) : Bridge σ :=
  ⟨p, b.state.state, b.loaded, b.descriptor, b.channel⟩

end Conformance
