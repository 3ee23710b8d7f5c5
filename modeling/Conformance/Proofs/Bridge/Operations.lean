import Conformance.Proofs.Plugin.Recorded

/-!
# Sequences of operations on a bridge

A host uses a bridge in any order and as often as it likes, and in the
end lets it drop, which unloads what is still loaded. `Bridge.perform`
is one operation, with its answer; `Bridge.performAll` is the bridge
after several. Between two operations the plugin's threads may run, and
what they hand over may arrive even after the plugin was unloaded; both
are operations here, so that they may come anywhere in a sequence. The
host may differ from one operation to the next.

What a plugin carries beside the state of another one changes no answer,
and nothing of the bridge but the plugin's state (`perform_project`,
`performAll_project`). So it is with the record of the calls.
-/

namespace Conformance

/-- What may happen to a bridge. -/
inductive BridgeOp where
  | status
  | deliver (capability : String) (request : Json)
  | drain
  | waitNext (bound : Nat)
  | descriptor
  | stats
  | unload
  /-- The plugin's threads run for a while. -/
  | idle (bound : Nat)
  /-- Something that threads of the plugin handed over arrives. -/
  | arrive (emissions : List Emission)

/-- The operations that need a plugin that is loaded. -/
def BridgeOp.needsPlugin : BridgeOp → Bool
  | .status | .deliver .. | .drain | .waitNext _ | .descriptor => true
  | .stats | .unload | .idle _ | .arrive _ => false

/-- The operations that ask the plugin for its status first. -/
def BridgeOp.asksStatus : BridgeOp → Bool
  | .status | .deliver .. => true
  | _ => false

/-- What an operation answers. -/
inductive BridgeAnswer where
  | done
  | descriptor (d : Descriptor)
  | parcels (ps : List Parcel)
  | parcel (p : Option Parcel)
  | stats (s : ChannelStats)

namespace Bridge

variable {σ : Type}

/-- One operation: its answer, and the bridge after it. -/
def perform (b : Bridge σ) (h : Host) : BridgeOp → Except BridgeFault BridgeAnswer × Bridge σ
  | .status => ((b.pollStatus h).1.map .descriptor, (b.pollStatus h).2)
  | .deliver capability request =>
    ((b.deliver h capability request).1.map fun _ => .done, (b.deliver h capability request).2)
  | .drain => (b.drain.1.map .parcels, b.drain.2)
  | .waitNext bound => ((b.waitNext h bound).1.map .parcel, (b.waitNext h bound).2)
  | .descriptor => (b.currentDescriptor.map .descriptor, b)
  | .stats => (.ok (.stats b.stats), b)
  | .unload => ((b.unload h).1.map fun _ => .done, (b.unload h).2)
  | .idle bound => (.ok .done, b.idle h bound)
  | .arrive emissions => (.ok .done, { b with channel := b.channel.takeAll emissions })

/-- The bridge after several operations, each with the host it meets. -/
def performAll (b : Bridge σ) (ops : List (Host × BridgeOp)) : Bridge σ :=
  ops.foldl (fun b op => (b.perform op.1 op.2).2) b

@[simp] theorem performAll_nil (b : Bridge σ) : b.performAll [] = b := rfl

@[simp] theorem performAll_cons (b : Bridge σ) (op : Host × BridgeOp)
    (ops : List (Host × BridgeOp)) :
    b.performAll (op :: ops) = (b.perform op.1 op.2).2.performAll ops := rfl

/-- The bridge that is dropped: what is still loaded is unloaded, and
nobody learns how that ends. -/
def dropped (b : Bridge σ) (h : Host) : Bridge σ := (b.unload h).2

/-! ## An invariant of all operations -/

/-- What every operation keeps holds after every sequence of them. -/
theorem performAll_induction {Inv : Bridge σ → Prop}
    (hstep : ∀ b h op, Inv b → Inv (b.perform h op).2) :
    ∀ (ops : List (Host × BridgeOp)) {b : Bridge σ}, Inv b → Inv (b.performAll ops)
  | [], _, hb => hb
  | op :: ops, b, hb => performAll_induction hstep ops (hstep b op.1 op.2 hb)

/-! ## The plugin of a bridge -/

theorem pollStatus_plugin (b : Bridge σ) (h : Host) :
    (b.pollStatus h).2.plugin = b.plugin := by
  unfold pollStatus
  split
  · rfl
  · dsimp only
    split <;> rfl

/-- The bridge never changes its plugin. -/
theorem perform_plugin (b : Bridge σ) (h : Host) (op : BridgeOp) :
    (b.perform h op).2.plugin = b.plugin := by
  cases op with
  | status => exact pollStatus_plugin b h
  | deliver capability request =>
      have hpoll := pollStatus_plugin b h
      simp only [perform, deliver]
      generalize b.pollStatus h = polled at hpoll ⊢
      obtain ⟨answer, b'⟩ := polled
      cases answer with
      | error fault => exact hpoll
      | ok d => dsimp only; cases route d capability request <;> exact hpoll
  | drain => unfold perform drain; dsimp only; split <;> rfl
  | waitNext bound =>
      unfold perform waitNext idle
      cases b.loaded <;> cases b.channel.queue.isEmpty <;> rfl
  | descriptor | stats | arrive _ => rfl
  | unload => unfold perform unload; dsimp only; split <;> rfl
  | idle bound => unfold perform idle; dsimp only; split <;> rfl

/-! ## What a plugin carries beside changes nothing -/

section

variable {ρ : Type} {q : Plugin ρ} {p : Plugin σ} {f : ρ → σ} (hq : q.Projects p f)

include hq

/-- A plugin starts exactly when the plugin below does, and the bridges
are the same but for what is carried. -/
theorem attach_project (h : Host) (s : ρ) (settings : Settings) (capacity : Nat) :
    attach h p (f s) settings capacity
      = match attach h q s settings capacity with
        | .ok b => .ok (b.project f p)
        | .error (fault, s') => .error (fault, f s') := by
  simp only [attach, hq.start, Reply.project_outcome, Reply.project_state,
    Reply.project_emissions, hq.release]
  cases (q.start s h settings).outcome.checked "start" <;> rfl

variable {b : Bridge ρ}

theorem pollStatus_project (hb : b.plugin = q) (h : Host) :
    (b.project f p).pollStatus h = ((b.pollStatus h).1, (b.pollStatus h).2.project f p) := by
  obtain ⟨plugin, s, loaded, d, c⟩ := b
  obtain rfl : plugin = q := hb
  cases loaded with
  | false => rfl
  | true =>
      simp only [pollStatus, project, hq.status, Reply.project_outcome]
      cases (plugin.status s h).outcome.checked "status" <;> rfl

theorem deliver_project (hb : b.plugin = q) (h : Host) (capability : String) (request : Json) :
    (b.project f p).deliver h capability request
      = ((b.deliver h capability request).1,
          (b.deliver h capability request).2.project f p) := by
  have hplugin := (pollStatus_plugin b h).trans hb
  simp only [deliver, pollStatus_project hq hb]
  generalize b.pollStatus h = polled at hplugin ⊢
  obtain ⟨answer, plugin, s, loaded, d', c⟩ := polled
  obtain rfl : plugin = q := hplugin
  cases answer with
  | error fault => rfl
  | ok d =>
      simp only [project, hq.deliver]
      cases route d capability request <;> rfl

theorem idle_project (hb : b.plugin = q) (h : Host) (bound : Nat) :
    (b.project f p).idle h bound = (b.idle h bound).project f p := by
  obtain ⟨plugin, s, loaded, d, c⟩ := b
  obtain rfl : plugin = q := hb
  cases loaded <;> simp [idle, project, hq.background]

omit hq in
theorem drain_project (b : Bridge ρ) :
    (b.project f p).drain = (b.drain.1, b.drain.2.project f p) := by
  cases hb : b.loaded <;> simp [drain, project, hb]

theorem waitNext_project (hb : b.plugin = q) (h : Host) (bound : Nat) :
    (b.project f p).waitNext h bound
      = ((b.waitNext h bound).1, (b.waitNext h bound).2.project f p) := by
  obtain ⟨plugin, s, loaded, d, c⟩ := b
  obtain rfl : plugin = q := hb
  cases loaded with
  | false => rfl
  | true =>
      cases hempty : c.queue.isEmpty <;>
        simp [waitNext, idle, project, hempty, hq.background]

theorem unload_project (hb : b.plugin = q) (h : Host) :
    (b.project f p).unload h = ((b.unload h).1, (b.unload h).2.project f p) := by
  obtain ⟨plugin, s, loaded, d, c⟩ := b
  obtain rfl : plugin = q := hb
  cases loaded <;> simp [unload, project, after, hq.stop, hq.release]

/-- An operation is the one on the plugin below, with the same answer. -/
theorem perform_project (hb : b.plugin = q) (h : Host) (op : BridgeOp) :
    (b.project f p).perform h op = ((b.perform h op).1, (b.perform h op).2.project f p) := by
  cases op with
  | status => simp only [perform, pollStatus_project hq hb]
  | deliver capability request => simp only [perform, deliver_project hq hb]
  | drain => simp only [perform, drain_project]
  | waitNext bound => simp only [perform, waitNext_project hq hb]
  | descriptor | stats | arrive _ => rfl
  | unload => simp only [perform, unload_project hq hb]
  | idle bound => simp only [perform, idle_project hq hb]

theorem performAll_project : ∀ (ops : List (Host × BridgeOp)) {b : Bridge ρ}, b.plugin = q →
    (b.project f p).performAll ops = (b.performAll ops).project f p
  | [], _, _ => rfl
  | op :: ops, b, hb => by
      rw [performAll_cons, performAll_cons, perform_project hq hb]
      exact performAll_project ops ((perform_plugin b op.1 op.2).trans hb)

end

/-! ## Recording changes nothing -/

section

variable {p : Plugin σ} {b : Bridge (Recorded σ)}

theorem attach_unrecorded (p : Plugin σ) (h : Host) (s : Recorded σ) (settings : Settings)
    (capacity : Nat) :
    attach h p s.state settings capacity
      = match attach h p.recorded s settings capacity with
        | .ok b => .ok (b.unrecorded p)
        | .error (fault, s') => .error (fault, s'.state) := by
  refine (attach_project (recorded_projects p) h s settings capacity).trans ?_
  cases attach h p.recorded s settings capacity <;> rfl

theorem drain_unrecorded (p : Plugin σ) (b : Bridge (Recorded σ)) :
    (b.unrecorded p).drain = (b.drain.1, b.drain.2.unrecorded p) :=
  drain_project b

theorem deliver_unrecorded (hp : b.plugin = p.recorded) (h : Host) (capability : String)
    (request : Json) :
    (b.unrecorded p).deliver h capability request
      = ((b.deliver h capability request).1,
          (b.deliver h capability request).2.unrecorded p) :=
  deliver_project (recorded_projects p) hp h capability request

theorem idle_unrecorded (hp : b.plugin = p.recorded) (h : Host) (bound : Nat) :
    (b.unrecorded p).idle h bound = (b.idle h bound).unrecorded p :=
  idle_project (recorded_projects p) hp h bound

theorem waitNext_unrecorded (hp : b.plugin = p.recorded) (h : Host) (bound : Nat) :
    (b.unrecorded p).waitNext h bound
      = ((b.waitNext h bound).1, (b.waitNext h bound).2.unrecorded p) :=
  waitNext_project (recorded_projects p) hp h bound

theorem unload_unrecorded (hp : b.plugin = p.recorded) (h : Host) :
    (b.unrecorded p).unload h = ((b.unload h).1, (b.unload h).2.unrecorded p) :=
  unload_project (recorded_projects p) hp h

theorem performAll_unrecorded (ops : List (Host × BridgeOp)) (hp : b.plugin = p.recorded) :
    (b.unrecorded p).performAll ops = (b.performAll ops).unrecorded p :=
  performAll_project (recorded_projects p) ops hp

end

end Bridge

end Conformance
