import Conformance.Proofs.Bridge.Invariants

/-!
# The lifecycle of a bridge

A plugin whose start succeeds is stopped exactly once, by the first
unload or else by the drop, and no entry point of it runs after that; a
plugin whose start fails is never stopped. This holds for every plugin,
whatever its calls return and whether they panic, and for every sequence
of operations (`stopped_exactly_once`).

The record of calls carries the proof. The entry points of a plugin that
was started add queries to it, and its unload adds the stop and the
release (`recorded_keeps`). So the record of every bridge that can be
reached is the start, queries, and the stop with the release behind it
exactly when the bridge is not loaded any more (`Recording`).

No use is refused before that: as long as a plugin is loaded, only its
unload changes this, and no operation answers that the plugin is gone
(`perform_loaded`).
-/

namespace Conformance.Bridge

variable {σ : Type}

/-! ## Operations on a bridge that is not loaded -/

/-- Without a plugin every operation that needs one is refused and
changes nothing. -/
theorem perform_of_not_loaded {b : Bridge σ} (hb : b.loaded = false) (h : Host)
    {op : BridgeOp} (hop : op.needsPlugin = true) :
    b.perform h op = (.error .useAfterUnload, b) := by
  cases op with
  | status => simp [perform, pollStatus, hb, Except.map]
  | deliver capability request => simp [perform, deliver, pollStatus, hb, Except.map]
  | drain => simp [perform, drain, hb, Except.map]
  | waitNext bound => simp [perform, waitNext, hb, Except.map]
  | descriptor => simp [perform, currentDescriptor, hb, Except.map]
  | stats | unload | idle _ | arrive _ => cases hop

theorem unload_of_not_loaded {b : Bridge σ} (hb : b.loaded = false) (h : Host) :
    b.unload h = (.ok (), b) := by
  simp [unload, hb]

theorem idle_of_not_loaded {b : Bridge σ} (hb : b.loaded = false) (h : Host) (bound : Nat) :
    b.idle h bound = b := by
  simp [idle, hb]

theorem unload_loaded (b : Bridge σ) (h : Host) : (b.unload h).2.loaded = false := by
  cases hb : b.loaded <;> simp [unload, hb]

/-- No operation loads a plugin again. -/
theorem perform_not_loaded (b : Bridge σ) (h : Host) (op : BridgeOp) (hb : b.loaded = false) :
    (b.perform h op).2.loaded = false := by
  cases op with
  | status | deliver _ _ | drain | waitNext _ | descriptor =>
      rw [perform_of_not_loaded hb h rfl]; exact hb
  | unload => exact unload_loaded b h
  | idle bound => simp [perform, idle_of_not_loaded hb, hb]
  | stats | arrive _ => exact hb

/-! ## Operations on a bridge that is loaded -/

theorem checked_ne_useAfterUnload {α : Type} (entry : String) (outcome : Outcome α) :
    outcome.checked entry ≠ .error .useAfterUnload := by
  cases outcome <;> simp [Outcome.checked]

theorem pollStatus_loaded {b : Bridge σ} (hb : b.loaded = true) (h : Host) :
    (b.pollStatus h).2.loaded = true ∧ (b.pollStatus h).1 ≠ .error .useAfterUnload := by
  have hchecked := checked_ne_useAfterUnload "status" (b.plugin.status b.state h).outcome
  unfold pollStatus
  rw [hb]
  dsimp only
  generalize (b.plugin.status b.state h).outcome.checked "status" = answer at hchecked ⊢
  cases answer with
  | ok d => exact ⟨hb, by simp⟩
  | error fault => exact ⟨hb, by simpa using hchecked⟩

theorem route_ne_useAfterUnload (d : Descriptor) (capability : String) (request : Json) :
    route d capability request ≠ .error .useAfterUnload := by
  unfold route
  split
  · simp
  · split <;> simp

theorem deliver_loaded {b : Bridge σ} (hb : b.loaded = true) (h : Host) (capability : String)
    (request : Json) :
    (b.deliver h capability request).2.loaded = true
      ∧ (b.deliver h capability request).1 ≠ .error .useAfterUnload := by
  have hpoll := pollStatus_loaded hb h
  unfold deliver
  generalize b.pollStatus h = polled at hpoll ⊢
  obtain ⟨answer, b'⟩ := polled
  obtain ⟨hloaded, hanswer⟩ := hpoll
  cases answer with
  | error fault => exact ⟨hloaded, by simpa using hanswer⟩
  | ok d =>
      have hroute := route_ne_useAfterUnload d capability request
      dsimp only
      generalize route d capability request = routed at hroute ⊢
      cases routed with
      | error fault => exact ⟨hloaded, by simpa using hroute⟩
      | ok handler => exact ⟨hloaded, checked_ne_useAfterUnload "deliver" _⟩

/-- While a plugin is loaded it stays so until it is unloaded, and no use
of it is refused. -/
theorem perform_loaded {b : Bridge σ} (hb : b.loaded = true) (h : Host) (op : BridgeOp) :
    (op ≠ .unload → (b.perform h op).2.loaded = true)
      ∧ (b.perform h op).1 ≠ .error .useAfterUnload := by
  have hmap : ∀ {α : Type} {answer : Except BridgeFault α} {f : α → BridgeAnswer},
      answer ≠ .error .useAfterUnload → answer.map f ≠ .error .useAfterUnload := by
    intro α answer f hanswer
    cases answer with
    | ok a => simp [Except.map]
    | error fault => simpa [Except.map] using hanswer
  cases op with
  | status =>
      obtain ⟨hloaded, hanswer⟩ := pollStatus_loaded hb h
      exact ⟨fun _ => hloaded, hmap hanswer⟩
  | deliver capability request =>
      obtain ⟨hloaded, hanswer⟩ := deliver_loaded hb h capability request
      exact ⟨fun _ => hloaded, hmap hanswer⟩
  | drain => simp [perform, drain, hb, Except.map]
  | waitNext bound =>
      have hidle : (b.idle h bound).loaded = true := by simp [idle, hb]
      unfold perform waitNext
      rw [hb]
      cases b.channel.queue.isEmpty <;> simp [hb, hidle, Except.map]
  | descriptor => simp [perform, currentDescriptor, hb, Except.map]
  | stats | arrive _ => simp [perform, hb]
  | unload =>
      refine ⟨fun hop => absurd rfl hop, hmap ?_⟩
      simp only [unload, hb]
      exact checked_ne_useAfterUnload "stop" _
  | idle bound => simp [perform, idle, hb]

/-! ## A status call that fails -/

/-- A status call that fails is answered with its fault. It leaves the
descriptor and the loaded state, and a delivery goes no further. -/
theorem status_failure {b : Bridge σ} (hb : b.loaded = true) (h : Host)
    {fault : BridgeFault}
    (hfault : (b.plugin.status b.state h).outcome.checked "status" = .error fault) :
    b.pollStatus h = (.error fault, b.after (b.plugin.status b.state h))
      ∧ ∀ capability request,
          b.deliver h capability request
            = (.error fault, b.after (b.plugin.status b.state h)) := by
  have hpoll : b.pollStatus h = (.error fault, b.after (b.plugin.status b.state h)) := by
    simp [pollStatus, hb, hfault]
  exact ⟨hpoll, fun capability request => by simp [deliver, hpoll]⟩

/-! ## The record of a plugin -/

section

variable {p : Plugin σ} {b : Bridge (Recorded σ)}

/-- The unload of a loaded plugin stops it and lets it go, however the
stop ends. -/
theorem unload_recorded (hp : b.plugin = p.recorded) (hb : b.loaded = true) (h : Host) :
    (b.unload h).1 = (p.stop b.state.state h).outcome.checked "stop"
      ∧ (b.unload h).2.state = ⟨(p.release (p.stop b.state.state h).state h).2,
          b.state.calls ++ [.stop, .release]⟩ := by
  simp [unload, hb, hp, after]

end

/-- The record of a plugin that was started: the start, and queries. -/
def Queried (settings : Settings) (s : Recorded σ) : Prop :=
  ∃ queries : List PluginCall, (∀ c ∈ queries, c.isQuery = true)
    ∧ s.calls = .start settings :: queries

/-- The record of a plugin that was started, and stopped and let go in
the end. -/
def Closed (settings : Settings) (s : Recorded σ) : Prop :=
  ∃ queries : List PluginCall, (∀ c ∈ queries, c.isQuery = true)
    ∧ s.calls = .start settings :: queries ++ [.stop, .release]

theorem Queried.concat {settings : Settings} {s s' : Recorded σ} {c : PluginCall}
    (hs : Queried settings s) (hc : c.isQuery = true) (hcalls : s'.calls = s.calls ++ [c]) :
    Queried settings s' := by
  obtain ⟨queries, hq, hcalls'⟩ := hs
  refine ⟨queries ++ [c], fun c' hc' => ?_, by rw [hcalls, hcalls']; rfl⟩
  rcases List.mem_append.mp hc' with hc' | hc'
  · exact hq c' hc'
  · rw [List.mem_singleton.mp hc']
    exact hc

theorem recorded_keeps (p : Plugin σ) (settings : Settings) :
    p.recorded.Keeps (Queried settings) (Closed settings) where
  status _ _ hs := hs.concat rfl rfl
  deliver _ _ _ _ hs := hs.concat rfl rfl
  background _ _ _ hs := hs
  unload s h hs := by
    obtain ⟨queries, hq, hcalls⟩ := hs
    exact ⟨queries, hq, by simp [hcalls]⟩

/-! ## Every bridge that can be reached -/

/-- A bridge to a recorded plugin with the record it has to have: the
start, queries, and the stop and the release exactly when the plugin is
not loaded any more. -/
structure Recording (p : Plugin σ) (settings : Settings) (b : Bridge (Recorded σ)) : Prop where
  plugin : b.plugin = p.recorded
  calls : ∃ queries : List PluginCall, (∀ c ∈ queries, c.isQuery = true)
    ∧ b.state.calls
      = .start settings :: queries ++ (if b.loaded = true then [] else [.stop, .release])

theorem recording_iff {p : Plugin σ} {settings : Settings} {b : Bridge (Recorded σ)} :
    Recording p settings b ↔ b.Holds p.recorded (Queried settings) (Closed settings) := by
  constructor
  · rintro ⟨hp, hcalls⟩
    exact ⟨hp, fun hl => by simpa [Queried, hl] using hcalls,
      fun hl => by simpa [Closed, hl] using hcalls⟩
  · rintro ⟨hp, hloaded, hunloaded⟩
    refine ⟨hp, ?_⟩
    cases hl : b.loaded with
    | true => simpa [Queried, hl] using hloaded hl
    | false => simpa [Closed, hl] using hunloaded hl

theorem recording_attach {p : Plugin σ} {h : Host} {state : σ} {settings : Settings}
    {capacity : Nat} {b : Bridge (Recorded σ)}
    (hb : attach h p.recorded ⟨state, []⟩ settings capacity = .ok b) :
    Recording p settings b :=
  recording_iff.mpr (attach_holds hb ⟨[], by simp, rfl⟩)

/-- Every operation keeps the record in shape. -/
theorem recording_perform {p : Plugin σ} {settings : Settings} (b : Bridge (Recorded σ))
    (h : Host) (op : BridgeOp) (hb : Recording p settings b) :
    Recording p settings (b.perform h op).2 :=
  recording_iff.mpr (perform_holds (recorded_keeps p settings) b h op (recording_iff.mp hb))

theorem recording_performAll {p : Plugin σ} {settings : Settings}
    (ops : List (Host × BridgeOp)) {b : Bridge (Recorded σ)} (hb : Recording p settings b) :
    Recording p settings (b.performAll ops) :=
  performAll_induction recording_perform ops hb

/-- However a bridge was used, once it is dropped the plugin has been
stopped and let go, once each and after everything else. -/
theorem Recording.dropped_calls {p : Plugin σ} {settings : Settings} {b : Bridge (Recorded σ)}
    (hb : Recording p settings b) (h : Host) :
    ∃ queries : List PluginCall, (∀ c ∈ queries, c.isQuery = true)
      ∧ (b.dropped h).state.calls = .start settings :: queries ++ [.stop, .release] :=
  (recording_iff.mp hb).dropped (recorded_keeps p settings) h

/-! ## After the first unload -/

theorem performAll_not_loaded : ∀ (ops : List (Host × BridgeOp)) (b : Bridge σ),
    (∃ h, (h, BridgeOp.unload) ∈ ops) → (b.performAll ops).loaded = false
  | [], _, ⟨_, hmem⟩ => absurd hmem List.not_mem_nil
  | op :: ops, b, ⟨h, hmem⟩ => by
      rcases List.mem_cons.mp hmem with rfl | hmem
      · exact performAll_induction perform_not_loaded ops (unload_loaded b h)
      · exact performAll_not_loaded ops _ ⟨h, hmem⟩

/-- What needs the plugin is refused and changes nothing, and another
unload does nothing. -/
structure Inert (b : Bridge σ) : Prop where
  refuses : ∀ (h : Host) (op : BridgeOp), op.needsPlugin = true →
    b.perform h op = (.error .useAfterUnload, b)
  unloads : ∀ h : Host, b.unload h = (.ok (), b)

theorem inert_of_not_loaded {b : Bridge σ} (hb : b.loaded = false) : b.Inert :=
  ⟨fun h _ hop => perform_of_not_loaded hb h hop, fun h => unload_of_not_loaded hb h⟩

/-! ## Queries of the status that fail -/

/-- An operation ends with a fault, and the descriptor and the loaded
state are what they were. -/
structure Fails (b : Bridge σ) (h : Host) (op : BridgeOp) (fault : BridgeFault) : Prop where
  answer : (b.perform h op).1 = .error fault
  descriptor : (b.perform h op).2.descriptor = b.descriptor
  loaded : (b.perform h op).2.loaded = b.loaded

theorem fails_of_status {b : Bridge σ} (hl : b.loaded = true) {h : Host} {fault : BridgeFault}
    (hfault : (b.plugin.status b.state h).outcome.checked "status" = .error fault)
    {op : BridgeOp} (hop : op.asksStatus = true) : b.Fails h op fault := by
  obtain ⟨hstatus, hdeliver⟩ := status_failure hl h hfault
  cases op with
  | status => constructor <;> simp [perform, hstatus, Except.map, after]
  | deliver capability request =>
      constructor <;> simp [perform, hdeliver capability request, Except.map, after]
  | drain | waitNext _ | descriptor | stats | unload | idle _ | arrive _ => cases hop

/-! ## The lifecycle -/

/-- **The lifecycle.** A plugin that does not start is let go without a
stop. One that starts is stopped exactly once, whatever is done with the
bridge until it drops, and after the stop it is only let go. Once the
bridge was unloaded it is inert. A status call that fails leaves the
descriptor and the loaded state. The calls are those of the plugin
itself: without the record its bridge is the same throughout. -/
theorem stopped_exactly_once (p : Plugin σ) (state : σ) (start : Host) (settings : Settings)
    (capacity : Nat) :
    match attach start p.recorded ⟨state, []⟩ settings capacity with
    | .error (fault, s) =>
        attach start p state settings capacity = .error (fault, s.state)
        ∧ s.calls = [.start settings, .release]
    | .ok b =>
        attach start p state settings capacity = .ok (b.unrecorded p)
        ∧ ∀ ops : List (Host × BridgeOp),
          (b.unrecorded p).performAll ops = (b.performAll ops).unrecorded p
          ∧ (∀ h, ∃ queries : List PluginCall, (∀ c ∈ queries, c.isQuery = true)
            ∧ ((b.performAll ops).dropped h).state.calls
              = .start settings :: queries ++ [.stop, .release])
          ∧ ((∃ h, (h, BridgeOp.unload) ∈ ops) → (b.performAll ops).Inert)
          ∧ (∀ h fault, (b.performAll ops).loaded = true →
              (p.status (b.performAll ops).state.state h).outcome.checked "status"
                = .error fault →
              ∀ op : BridgeOp, op.asksStatus = true → (b.performAll ops).Fails h op fault) := by
  have hplain := attach_unrecorded p start ⟨state, []⟩ settings capacity
  split
  · rename_i fault s heq
    rw [heq] at hplain
    refine ⟨hplain, ?_⟩
    unfold attach at heq
    dsimp only at heq
    split at heq
    · cases heq
    · obtain ⟨-, rfl⟩ := Prod.mk.injEq .. |>.mp (Except.error.inj heq)
      rfl
  · rename_i b heq
    rw [heq] at hplain
    refine ⟨hplain, fun ops => ?_⟩
    have hattached := recording_attach heq
    have hrec := recording_performAll ops hattached
    refine ⟨performAll_unrecorded ops hattached.plugin, hrec.dropped_calls, ?_, ?_⟩
    · exact fun hunload => inert_of_not_loaded (performAll_not_loaded ops b hunload)
    · intro h fault hl hfault op hop
      exact fails_of_status hl (by rw [hrec.plugin]; exact hfault) hop

end Conformance.Bridge
