import Conformance.Plugin.Native
import Conformance.Proofs.Plugin.Projection
import Conformance.Proofs.Settings.Crossing

/-!
# Native modules whose calls are logged

Which entry points of a native module are called, with what, and what
comes of it cannot be read off the plugin that is made of the module. A
logged module does exactly what the module below it does and keeps the
calls beside the module's memory; the plugin that is made of it does what
the plugin of the module does (`logged_projects`).
-/

namespace Conformance

variable {τ α : Type}

/-- A call of a native entry point, with what came of it. -/
inductive NativeCall where
  | start (settings : String) (result : Except PanicPayload RawStart)
  | status (state : Address) (result : Except PanicPayload RawDescriptor)
  | deliver (function state : Address) (handler : UInt64) (request : String)
    (result : Except PanicPayload Int32)
  | stop (state : Address) (result : Except PanicPayload Unit)

/-- The memory of a logged module: its own, and the calls so far in
order. -/
structure Logged (τ : Type) where
  memory : τ
  calls : List NativeCall

/-- The reply of a call that is put in the log. -/
def NativeReply.logged (reply : NativeReply τ α) (calls : List NativeCall)
    (call : Except PanicPayload α → NativeCall) : NativeReply (Logged τ) α :=
  ⟨reply.result, reply.emissions, ⟨reply.memory, calls ++ [call reply.result]⟩⟩

/-- The module with its calls logged. What its threads do is no call. -/
def NativeModule.logged (m : NativeModule τ) : NativeModule (Logged τ) where
  start s h settings := (m.start s.memory h settings).logged s.calls (.start settings)
  status s h state := (m.status s.memory h state).logged s.calls (.status state)
  deliver s h function state handler request :=
    (m.deliver s.memory h function state handler request).logged s.calls
      (.deliver function state handler request)
  stop s h state := (m.stop s.memory h state).logged s.calls (.stop state)
  background s h bound :=
    ((m.background s.memory h bound).1, ⟨(m.background s.memory h bound).2, s.calls⟩)

/-- The state of the plugin of the module itself. -/
def NativeState.unlogged (s : NativeState (Logged τ)) : NativeState τ :=
  ⟨s.memory.memory, s.running, s.state, s.deliver⟩

namespace NativeModule

theorem stop_unlogged (m : NativeModule τ) (s : NativeState (Logged τ)) (h : Host) :
    m.stopPlugin s.unlogged h = (m.logged.stopPlugin s h).project NativeState.unlogged := by
  obtain ⟨⟨memory, calls⟩, running, state, deliver⟩ := s
  cases running with
  | false => rfl
  | true =>
      simp only [stopPlugin, NativeState.unlogged, logged, NativeReply.logged]
      cases (m.stop memory h state).result <;> rfl

theorem logged_projects (m : NativeModule τ) :
    m.logged.plugin.Projects m.plugin NativeState.unlogged where
  start s h settings := by
    simp only [plugin, startPlugin, settings.raw_eq, NativeState.unlogged, logged,
      NativeReply.logged]
    cases (m.start s.memory.memory h settings.text).result with
    | error payload => rfl
    | ok raw =>
        simp only [acceptDescriptor]
        cases Descriptor.ofRaw raw.descriptor.json <;> rfl
  status s h := by
    simp only [plugin, statusPlugin, NativeState.unlogged, logged, NativeReply.logged]
    cases (m.status s.memory.memory h s.state).result with
    | error payload => rfl
    | ok raw =>
        simp only [acceptDescriptor]
        cases Descriptor.ofRaw raw.json <;> rfl
  deliver s h handler request := by
    obtain ⟨⟨memory, calls⟩, running, state, deliver⟩ := s
    cases deliver with
    | none => rfl
    | some function =>
        simp only [plugin, deliverPlugin, NativeState.unlogged, logged, NativeReply.logged]
        rfl
  stop := m.stop_unlogged
  release s h := by
    simp only [plugin, m.stop_unlogged]
    rfl
  background s h bound := rfl

end NativeModule

end Conformance
