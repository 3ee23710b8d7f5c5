import Conformance.Bridge

/-!
# Plugins that do what another one does

A plugin can carry something beside the state of another plugin, such as
a record, and else do what that one does. `Plugin.Projects` says so for
every entry point: what is carried changes no outcome and no emission.
A bridge to such a plugin can be read as one to the plugin below
(`Bridge.project`).
-/

namespace Conformance

variable {σ ρ α : Type}

/-- The reply of the plugin below. -/
def Reply.project (f : ρ → σ) (reply : Reply ρ α) : Reply σ α :=
  ⟨reply.outcome, reply.emissions, f reply.state⟩

section

variable (f : ρ → σ) (reply : Reply ρ α)

@[simp] theorem Reply.project_outcome : (reply.project f).outcome = reply.outcome := rfl

@[simp] theorem Reply.project_emissions : (reply.project f).emissions = reply.emissions := rfl

@[simp] theorem Reply.project_state : (reply.project f).state = f reply.state := rfl

end

/-- The plugin `q` does in each state what the plugin `p` does in the
state that `f` makes of it. -/
structure Plugin.Projects (q : Plugin ρ) (p : Plugin σ) (f : ρ → σ) : Prop where
  start : ∀ s h settings, p.start (f s) h settings = (q.start s h settings).project f
  status : ∀ s h, p.status (f s) h = (q.status s h).project f
  deliver : ∀ s h handler request,
    p.deliver (f s) h handler request = (q.deliver s h handler request).project f
  stop : ∀ s h, p.stop (f s) h = (q.stop s h).project f
  release : ∀ s h, p.release (f s) h = ((q.release s h).1, f (q.release s h).2)
  background : ∀ s h bound,
    p.background (f s) h bound = ((q.background s h bound).1, f (q.background s h bound).2)

/-- The bridge to the plugin below. -/
def Bridge.project (f : ρ → σ) (p : Plugin σ) (b : Bridge ρ) : Bridge σ :=
  ⟨p, f b.state, b.loaded, b.descriptor, b.channel⟩

end Conformance
