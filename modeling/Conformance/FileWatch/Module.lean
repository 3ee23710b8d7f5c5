import Conformance.FileWatch.Poller
import Conformance.FileWatch.Request
import Conformance.Plugin.Native

/-!
# The file watch

A native module that watches files. Requests to its monitor handler add watches to a poller, and a
thread of its own makes passes, with an interval between two of them; a request may make the
interval shorter, never longer. A request is accepted as a whole or changes nothing.

The thread starts only for a host that takes parcels. It ends with the module, or at the first pass
that breaks off; requests are accepted even then.
-/

namespace Conformance.FileWatch

def monitor : HandlerRef := ⟨1⟩

/-- What the file watch accepts and emits. -/
def descriptor : Descriptor :=
  ⟨name, "0.1.0", [⟨"file-monitor", 1, ["interval_ms"], monitor⟩], [⟨"file-state", 1⟩]⟩

/-- The setting for the milliseconds between two passes. -/
def intervalSetting : String := "file_watch.interval_ms"

/-- The milliseconds between two passes where nothing else is set. -/
def standardInterval : Nat := 100

/-- The answer to a request. -/
inductive Answer where
  | accepted
  | unknownHandler
  | badRequest
  deriving Repr, DecidableEq

def Answer.code : Answer → Int32
  | .accepted => 0
  | .unknownHandler => 1
  | .badRequest => 2

/-! ## A file watch at work -/

/-- A file watch that was started. -/
structure Watcher where
  poller : Poller
  /-- The milliseconds between two passes. -/
  interval : Nat
  /-- Whether its thread goes on. -/
  working : Bool
  /-- The milliseconds until the next pass. -/
  due : Nat
  /-- The milliseconds since the start. -/
  elapsed : Nat
  deriving Repr, DecidableEq

namespace Watcher

/-- The interval of some settings: one millisecond at least. -/
def intervalOf (settings : Settings) : Nat :=
  max (((settings.lookup intervalSetting).bind Digits.word64?).getD standardInterval) 1

/-- A file watch with a configuration. `attached` says whether its host takes parcels. -/
def start (attached : Bool) (config : RawText) : Watcher :=
  let interval := intervalOf (Settings.ofRaw config)
  ⟨.empty, interval, attached, interval, 0⟩

/-- A file watch with one watch more, and an interval as short as the request wants it. -/
def accept (w : Watcher) (r : Request) : Watcher :=
  { w with
    poller := w.poller.watch r.path r.kinds
    interval := match r.interval with
      | some ms => min w.interval (max ms 1)
      | none => w.interval }

/-- Answers a request to a handler. -/
def answer (w : Watcher) (handler : HandlerRef) (request : RawText) : Answer × Watcher :=
  if handler ≠ monitor then (.unknownHandler, w)
  else
    match Request.ofRaw? request with
    | some r => (.accepted, w.accept r)
    | none => (.badRequest, w)

/-- The time of a pass, counted from the start. -/
def now (w : Watcher) : Instant := (Instant.ofMillis? w.elapsed).getD ⟨0, 0⟩

/-- One pass of the thread. -/
def pass (w : Watcher) (h : Host) : List Parcel × Watcher :=
  match w.poller.poll w.now fun _ => h with
  | (poller, some parcels) => (parcels, { w with poller })
  | (poller, none) => ([], { w with poller, working := false })

/-- What the thread emits within so many milliseconds in which the host stays as it is. More than
one pass would report nothing more, so there is one at most. -/
def within (w : Watcher) (h : Host) (span : Nat) : List Parcel × Watcher :=
  if !w.working then ([], w)
  else if span < w.due then ([], { w with due := w.due - span, elapsed := w.elapsed + span })
  else
    let (parcels, next) := { w with elapsed := w.elapsed + w.due }.pass h
    let beyond := span - w.due
    (parcels, { next with
      due := w.interval - beyond % w.interval
      elapsed := w.elapsed + span })

end Watcher

/-! ## Entry points -/

/-- The memory of the module: the file watch, from its start to its stop. -/
abbrev Memory := Option Watcher

/-- The address of the state. -/
def stateAddress : Address := 1

def deliverAddress : Address := 2

def rawDescriptor : RawDescriptor :=
  ⟨descriptor.raw, some deliverAddress⟩

/-- The descriptor, given the address of the state. -/
def statusAt (state : Address) : RawDescriptor :=
  if state = 0 then ⟨none, none⟩ else rawDescriptor

/-- Answers a request, given the address of the state. -/
def deliverAt (memory : Memory) (state : Address) (handler : HandlerRef) (request : RawText) :
    Answer × Memory :=
  match memory, decide (state = 0) with
  | some w, false => ((w.answer handler request).1, some (w.answer handler request).2)
  | _, _ => (.badRequest, memory)

/-- Parcels as the module hands them over; one that cannot be handed over is left out. -/
def emissions (parcels : List Parcel) : List RawEmission :=
  parcels.filterMap fun p => (RawParcel.ofParcel p).toOption.map fun raw => .parcel (some raw)

/-- What the module's thread emits within so many milliseconds. -/
def emitWithin (memory : Memory) (h : Host) (span : Nat) : List RawEmission × Memory :=
  match memory with
  | some w => (emissions (w.within h span).1, some (w.within h span).2)
  | none => ([], none)

def native : NativeModule Memory where
  start _ _ config :=
    ⟨.ok ⟨stateAddress, rawDescriptor⟩, [], some (.start true (some (Utf8.encode config)))⟩
  status memory _ state := ⟨.ok (statusAt state), [], memory⟩
  deliver memory _ _ state handler request :=
    let (answer, memory) := deliverAt memory state ⟨handler⟩ (some (Utf8.encode request))
    ⟨.ok answer.code, [], memory⟩
  stop memory _ state := ⟨.ok (), [], if state = 0 then memory else none⟩
  background := emitWithin

end Conformance.FileWatch
