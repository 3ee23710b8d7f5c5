import Conformance.Proofs.Bridge.Invariants
import Conformance.Proofs.Plugin.Logged

/-!
# The calls of a native module

Two owners can stop a native module: the bridge that unloads it, and the
module itself when it is let go. Whether it runs is noted from the moment
its start returns, so one of them does it, and only one. That covers a
start whose descriptor cannot be read: the bridge never counts the plugin
as loaded, and it is stopped when it is let go (`stop_ends`).

As long as the module runs (`NativeModule.Runs`) its log is regular: it
begins with the start, every later call has the state that the start
returned, and requests go to the function of the last descriptor that
could be read. The entry points keep that (`logged_keeps`), whatever they
return, so every bridge does (`Bridge.performAll_holds`).
-/

namespace Conformance

variable {τ : Type}

/-! ## Logs -/

def RawDescriptor.readable? (raw : RawDescriptor) : Option RawDescriptor :=
  match Descriptor.ofRaw raw.json with
  | .ok _ => some raw
  | .error _ => none

namespace NativeCall

/-- The descriptor that a call has returned, if it can be read. -/
def readable? : NativeCall → Option RawDescriptor
  | .start _ (.ok raw) => raw.descriptor.readable?
  | .status _ (.ok raw) => raw.readable?
  | _ => none

/-- The call asks for the descriptor or hands over a request, with this
state. -/
def Asks (state : Address) : NativeCall → Prop
  | .status s _ | .deliver _ s _ _ _ => s = state
  | .start .. | .stop .. => False

def lastReadable? (calls : List NativeCall) : Option RawDescriptor :=
  calls.reverse.findSome? readable?

/-- The function that came with the last descriptor that can be read. -/
def function? (calls : List NativeCall) : Option Address :=
  (lastReadable? calls).bind (·.deliver)

theorem function?_concat (calls : List NativeCall) (c : NativeCall) :
    function? (calls ++ [c]) = match c.readable? with
      | some raw => raw.deliver
      | none => function? calls := by
  rw [function?, lastReadable?, List.reverse_append, List.reverse_singleton,
    List.singleton_append, List.findSome?_cons]
  cases c.readable? <;> rfl

/-- The log of a module that runs: its start, and then calls with the
state that the start has returned. A request is handed to the function
that came with the last descriptor before it that can be read. -/
structure Regular (settings : String) (raw : RawStart) (calls : List NativeCall) : Prop where
  first : ∃ queries, calls = .start settings (.ok raw) :: queries ∧ ∀ q ∈ queries, q.Asks raw.state
  functions : ∀ before function state handler request result after,
    calls = before ++ .deliver function state handler request result :: after →
      function? before = some function

variable {settings : String} {raw : RawStart} {calls : List NativeCall}

theorem regular_start (settings : String) (raw : RawStart) :
    Regular settings raw [.start settings (.ok raw)] := by
  refine ⟨⟨[], rfl, by simp⟩, fun before function state handler request result after heq => ?_⟩
  rcases List.singleton_eq_append_iff.mp heq with ⟨-, hcons⟩ | ⟨-, hcons⟩ <;> cases hcons

theorem Regular.concat (h : Regular settings raw calls) {c : NativeCall} (hc : c.Asks raw.state)
    (hfunction : ∀ function state handler request result,
      c = .deliver function state handler request result → function? calls = some function) :
    Regular settings raw (calls ++ [c]) := by
  obtain ⟨queries, hcalls, hasks⟩ := h.first
  refine ⟨⟨queries ++ [c], by rw [hcalls]; rfl, ?_⟩, ?_⟩
  · intro q hq
    rcases List.mem_append.mp hq with hq | hq
    · exact hasks q hq
    · exact List.mem_singleton.mp hq ▸ hc
  · intro before function state handler request result after heq
    -- The request is the last call, or one of the calls before it.
    rcases List.eq_nil_or_concat after with rfl | ⟨after', last, rfl⟩
    · obtain ⟨rfl, hlast⟩ := List.append_inj' heq rfl
      exact hfunction _ _ _ _ _ (List.singleton_inj.mp hlast)
    · rw [List.concat_eq_append, ← List.cons_append, ← List.append_assoc] at heq
      obtain ⟨hbefore, -⟩ := List.append_inj' heq rfl
      exact h.functions before function state handler request result after' hbefore

end NativeCall

open NativeCall

namespace NativeModule

/-! ## A module that runs -/

structure Runs (settings : String) (raw : RawStart) (s : NativeState (Logged τ)) : Prop where
  running : s.running = true
  state : s.state = raw.state
  function : s.deliver = function? s.memory.calls
  log : Regular settings raw s.memory.calls

/-- A logged module that was stopped, and its log. -/
structure Ends (settings : String) (raw : RawStart) (s : NativeState (Logged τ)) : Prop where
  running : s.running = false
  log : ∃ before stopped,
    Regular settings raw before ∧ s.memory.calls = before ++ [.stop raw.state stopped]

variable {settings : String} {raw : RawStart} {s : NativeState (Logged τ)} (m : NativeModule τ)

theorem acceptDescriptor_state (s : NativeState (Logged τ)) (raw : RawDescriptor) :
    (acceptDescriptor s raw).2 = { s with
      deliver := match raw.readable? with
        | some raw => raw.deliver
        | none => s.deliver } := by
  unfold acceptDescriptor RawDescriptor.readable?
  cases Descriptor.ofRaw raw.json <;> rfl

theorem stop_of_not_running {s : NativeState τ} (hs : s.running = false) (h : Host) :
    m.stopPlugin s h = ⟨.done (), [], s⟩ := by
  simp [stopPlugin, hs]

theorem stop_ends (hs : Runs settings raw s) (h : Host) :
    Ends settings raw (m.logged.stopPlugin s h).state := by
  have hlog : (m.logged.stopPlugin s h).state.running = false
      ∧ (m.logged.stopPlugin s h).state.memory.calls
        = s.memory.calls ++ [.stop s.state (m.stop s.memory.memory h s.state).result] := by
    simp only [stopPlugin, hs.running, logged, NativeReply.logged]
    -- It no longer runs, also if the stop unwinds.
    cases (m.stop s.memory.memory h s.state).result <;> exact ⟨rfl, rfl⟩
  rw [hs.state] at hlog
  exact ⟨hlog.1, s.memory.calls, _, hs.log, hlog.2⟩

theorem status_runs (hs : Runs settings raw s) (h : Host) :
    Runs settings raw (m.logged.statusPlugin s h).state := by
  have hlog : ∀ result, Regular settings raw (s.memory.calls ++ [.status s.state result]) :=
    fun result => hs.log.concat hs.state (by simp)
  simp only [statusPlugin, logged, NativeReply.logged]
  cases (m.status s.memory.memory h s.state).result with
  -- A call that unwinds has no descriptor, so the function stays.
  | error payload =>
      exact ⟨hs.running, hs.state, by rw [function?_concat]; exact hs.function, hlog _⟩
  | ok descriptor =>
      dsimp only
      rw [acceptDescriptor_state]
      refine ⟨hs.running, hs.state, ?_, hlog _⟩
      rw [function?_concat, ← hs.function]
      rfl

/-- A request is handed to the function of the last descriptor that can
be read; without such a function nothing is called. -/
def Delivers (m : NativeModule τ) (s : NativeState (Logged τ)) : Prop :=
  ∀ h handler request,
    (m.logged.plugin.deliver s h handler request).state.memory.calls
      = s.memory.calls ++ match function? s.memory.calls with
        | none => []
        | some function => [.deliver function s.state handler.number request.text
            (m.deliver s.memory.memory h function s.state handler.number request.text).result]

theorem Runs.delivers (hs : Runs settings raw s) : m.Delivers s := by
  intro h handler request
  rw [← hs.function]
  simp only [plugin, deliverPlugin]
  cases s.deliver with
  | none => exact (List.append_nil _).symm
  | some function => rfl

theorem deliver_runs (hs : Runs settings raw s) (h : Host) (handler : HandlerRef)
    (request : Json) : Runs settings raw (m.logged.deliverPlugin s h handler request).state := by
  unfold deliverPlugin
  cases hfunction : s.deliver with
  | none => exact hs
  | some function =>
      refine ⟨hs.running, hs.state, ?_, hs.log.concat hs.state ?_⟩
      · refine Eq.trans ?_ (function?_concat _ _).symm
        exact hfunction.symm.trans hs.function
      · intro function' state handler' request' result heq
        obtain ⟨rfl, -⟩ := NativeCall.deliver.inj heq
        rw [← hs.function, hfunction]

/-- **The step.** Whatever its entry points return, a module that runs
keeps a regular log, until it is stopped. -/
theorem logged_keeps (settings : String) (raw : RawStart) :
    m.logged.plugin.Keeps (Runs settings raw) (Ends settings raw) where
  status s h hs := status_runs m hs h
  deliver s h handler request hs := deliver_runs m hs h handler request
  background s h bound hs := ⟨hs.running, hs.state, hs.function, hs.log⟩
  unload s h hs := by
    have hends := stop_ends m hs h
    -- The module is let go after its stop, and not stopped again.
    have hrelease : (m.logged.plugin.release (m.logged.plugin.stop s h).state h).2
        = (m.logged.stopPlugin s h).state :=
      congrArg (·.state) (stop_of_not_running m.logged hends.running h)
    rw [hrelease]
    exact hends

/-! ## The start -/

/-- The module is logged from its start on. It runs exactly when that
returns, also if the descriptor cannot be read. -/
theorem start_runs (memory : τ) (h : Host) (settings : Settings) :
    match (m.start memory h settings.text).result with
    | .error payload =>
      (m.logged.startPlugin (initial ⟨memory, []⟩) h settings).outcome = .panicked payload
        ∧ (m.logged.startPlugin (initial ⟨memory, []⟩) h settings).state.running = false
        ∧ (m.logged.startPlugin (initial ⟨memory, []⟩) h settings).state.memory.calls
          = [.start settings.text (.error payload)]
    | .ok raw =>
      Runs settings.text raw (m.logged.startPlugin (initial ⟨memory, []⟩) h settings).state := by
  simp only [startPlugin, settings.raw_eq, logged, NativeReply.logged, initial]
  cases (m.start memory h settings.text).result with
  | error payload => exact ⟨rfl, rfl, rfl⟩
  | ok raw =>
      dsimp only
      rw [acceptDescriptor_state]
      refine ⟨rfl, rfl, ?_, regular_start settings.text raw⟩
      exact (function?_concat [] (.start settings.text (.ok raw))).symm

/-! ## From the load to the drop -/

/-- The log of a module in the end. One whose start has unwound was not
called again; one whose start has returned was stopped last. -/
def Concluded (settings : String) (started : Except PanicPayload RawStart)
    (calls : List NativeCall) : Prop :=
  match started with
  | .error payload => calls = [.start settings (.error payload)]
  | .ok raw => ∃ before stopped,
    Regular settings raw before ∧ calls = before ++ [.stop raw.state stopped]

/-- **Native entry points.** Whatever the entry points of a module
return, and however they unwind: if its start has unwound, nothing else
is called. If it has returned, the module is stopped exactly once, after
everything else, also when its descriptor cannot be read; every call has
the state that the start has returned, and a request is handed to the
function of the last descriptor that could be read, and to none if it
came without one. -/
theorem called_in_order (memory : τ) (start : Host) (settings : Settings) (capacity : Nat) :
    match Bridge.attach start m.logged.plugin (initial ⟨memory, []⟩) settings capacity with
    | .error (fault, s) =>
      Bridge.attach start m.plugin (initial memory) settings capacity
          = .error (fault, s.unlogged)
        ∧ Concluded settings.text (m.start memory start settings.text).result s.memory.calls
    | .ok b =>
      Bridge.attach start m.plugin (initial memory) settings capacity
          = .ok (b.project NativeState.unlogged m.plugin)
        ∧ ∀ ops : List (Host × BridgeOp),
          (b.project NativeState.unlogged m.plugin).performAll ops
              = (b.performAll ops).project NativeState.unlogged m.plugin
          ∧ (∀ h, Concluded settings.text (m.start memory start settings.text).result
              ((b.performAll ops).dropped h).state.memory.calls)
          ∧ ((b.performAll ops).loaded = true → m.Delivers (b.performAll ops).state) := by
  have hstart := start_runs m memory start settings
  have hplain := Bridge.attach_project m.logged_projects start (initial ⟨memory, []⟩) settings
    capacity
  split
  · rename_i fault s heq
    rw [heq] at hplain
    refine ⟨hplain, ?_⟩
    -- A module that cannot be attached is let go at once.
    obtain rfl := Bridge.released_of_attach heq
    unfold Concluded
    cases hresult : (m.start memory start settings.text).result with
    | error payload =>
        rw [hresult] at hstart
        obtain ⟨-, hidle, hcalls⟩ := hstart
        have hrelease := stop_of_not_running m.logged hidle start
        exact (congrArg (·.state.memory.calls) hrelease).trans hcalls
    | ok raw =>
        rw [hresult] at hstart
        exact (stop_ends m hstart start).log
  · rename_i b heq
    rw [heq] at hplain
    refine ⟨hplain, fun ops => ?_⟩
    unfold Concluded
    cases hresult : (m.start memory start settings.text).result with
    | error payload =>
        rw [hresult] at hstart
        -- A start that unwinds is not attached.
        have hfault : (m.logged.plugin.start (initial ⟨memory, []⟩) start settings).outcome
            = .panicked payload := hstart.1
        simp [Bridge.attach, hfault, Outcome.checked] at heq
    | ok raw =>
        rw [hresult] at hstart
        have hkeeps := logged_keeps m settings.text raw
        have hattached : b.Holds m.logged.plugin (Runs settings.text raw)
            (Ends settings.text raw) := Bridge.attach_holds heq hstart
        have hholds := Bridge.performAll_holds hkeeps ops hattached
        exact ⟨Bridge.performAll_project m.logged_projects ops hattached.plugin,
          fun h => (hholds.dropped hkeeps h).log, fun hl => (hholds.loaded hl).delivers m⟩

end NativeModule

end Conformance
