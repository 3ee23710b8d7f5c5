import Conformance.Capture
import Conformance.Parcel.Stream
import Conformance.Report
import Conformance.Scenario.Clock
import Conformance.Script

/-!
# Runs

A run carries out the steps of a script, first those that prepare, then those that assert, and stops
at the first that goes wrong. Parcels are collected after the preparation, during every wait, and at
the end; what was collected has to be in order, and nothing may have been lost or malformed.

The plugin's threads may emit between any two steps; so they get to run (`Run.idle`) before every
look at the channel.
-/

namespace Conformance

/-- Why a run stopped early. -/
inductive Halt where
  | failed (failure : ExpectationFailure)
  /-- Something else went wrong, in a step or outside of all steps. -/
  | errored (step : Option String) (fault : HarnessFault)
  deriving Repr, DecidableEq

/-- What a run is given, and does not change. -/
structure Scenario where
  script : Script
  config : Config
  clock : Clock
  workspace : Workspace
  placeholders : Placeholders

structure Run (σ : Type) where
  host : Host
  bridge : Bridge σ
  /-- The parcels that were collected, in order. -/
  observed : List Parcel
  captures : Nat
  looks : Nat
  /-- The phase that was entered last. -/
  phase : Phase

/-- A run after some of its steps, and why it stopped if it did. -/
structure Progress (σ : Type) where
  run : Run σ
  halt : Option Halt

namespace Progress

/-- Goes on with a run that has not stopped. -/
def andThen {σ : Type} (p : Progress σ) (next : Run σ → Progress σ) : Progress σ :=
  match p.halt with
  | none => next p.run
  | some _ => p

end Progress

namespace Run

def goesOn {σ : Type} (run : Run σ) : Progress σ := ⟨run, none⟩

/-- A run that stops because an expectation does not hold. -/
def fails {σ : Type} (run : Run σ) (failure : ExpectationFailure) : Progress σ :=
  ⟨run, some (.failed failure)⟩

/-- A run that stops because of a fault. -/
def stops {σ : Type} (run : Run σ) (step : Option String) (fault : HarnessFault) : Progress σ :=
  ⟨run, some (.errored step fault)⟩

def enter {σ : Type} (run : Run σ) (phase : Phase) : Run σ := { run with phase }

/-- Carries out steps one after the other, up to the first that stops the run. -/
def each {σ : Type} (act : Run σ → Step → Progress σ) : Run σ → List Step → Progress σ
  | run, [] => run.goesOn
  | run, step :: r => (act run step).andThen fun run => each act run r

/-! ## Parcels -/

/-- Lets the plugin's threads run while the host goes from one step to the next. -/
def idle {σ : Type} (run : Run σ) : Run σ := { run with bridge := run.bridge.idle run.host 0 }

/-- Collects every parcel that has arrived. `step` is the step that asks for it. -/
def collect {σ : Type} (run : Run σ) (step : Option String) : Progress σ :=
  let run := run.idle
  match run.bridge.drain with
  | (.ok parcels, bridge) =>
    ({ run with bridge, observed := run.observed ++ parcels } : Run σ).goesOn
  | (.error fault, bridge) => ({ run with bridge } : Run σ).stops step (.bridge fault)

/-- Waits for the next parcel, at most so many milliseconds. -/
def waitNext {σ : Type} (run : Run σ) (step : String) (bound : Nat) : Progress σ :=
  match run.bridge.waitNext run.host bound with
  | (.ok parcel, bridge) =>
    ({ run with bridge, observed := run.observed ++ parcel.toList } : Run σ).goesOn
  | (.error fault, bridge) => ({ run with bridge } : Run σ).stops (some step) (.bridge fault)

/-- The number of collected parcels that have the expected shape. -/
def hits {σ : Type} (sc : Scenario) (expect : ParcelExpectation) (run : Run σ) : Nat :=
  run.observed.countP (expect.accepts sc.placeholders)

/-- The failure of a wait of so many milliseconds. -/
def timeoutFailure {σ : Type} (sc : Scenario) (step : String) (expect : ParcelExpectation)
    (timeout : Nat) (run : Run σ) : ExpectationFailure where
  step
  kind := .expectationTimeout
  expected := expect.describe sc.placeholders
  actual := toString (run.hits sc expect) ++ " matching of " ++ toString run.observed.length
    ++ " observed after " ++ toString timeout ++ "ms"

/-- Collects parcels until enough of them have the expected shape or the clock shows the deadline.
`look` is the number of looks at the clock so far. -/
def waitUntil {σ : Type} (sc : Scenario) (step : String) (expect : ParcelExpectation)
    (timeout deadline look : Nat) (run : Run σ) : Progress σ :=
  let collected := run.collect (some step)
  match collected.halt with
  | some _ => ⟨{ collected.run with looks := look }, collected.halt⟩
  | none =>
    if expect.count ≤ collected.run.hits sc expect then
      ({ collected.run with looks := look } : Run σ).goesOn
    else if _late : deadline ≤ sc.clock.reading look then
      ({ collected.run with looks := look + 1 } : Run σ).fails
        (timeoutFailure sc step expect timeout collected.run)
    else
      let waited := collected.run.waitNext step
        (min sc.config.pause (deadline - sc.clock.reading look))
      match waited.halt with
      | some _ => ⟨{ waited.run with looks := look + 1 }, waited.halt⟩
      | none => waitUntil sc step expect timeout deadline (look + 1) waited.run
termination_by sc.clock.lookAfter deadline - look
decreasing_by
  have := Clock.lt_lookAfter _late
  omega

def waitFor {σ : Type} (sc : Scenario) (step : String) (expect : ParcelExpectation)
    (timeout : Nat) (run : Run σ) : Progress σ :=
  waitUntil sc step expect timeout (sc.clock.reading run.looks + timeout) (run.looks + 1) run

/-! ## Steps that prepare -/

def requestJson (ws : Workspace) (r : MonitorRequest) : Json :=
  Json.object [("path", .str (Path.text (ws.resolve r.path))),
    ("attributes", Json.texts (r.attributes.map AttributeKind.name)),
    ("config", Json.object r.config)]

/-- Carries out a step that prepares; any other step is left out. -/
def prepare {σ : Type} (sc : Scenario) (run : Run σ) (step : Step) : Progress σ :=
  match step.directive with
  | .fixture change =>
    let (files, fault) := sc.workspace.apply run.host change
    let run := { run with host := { run.host with files } }
    match fault with
    | none => run.goesOn
    | some fault => run.stops (some step.name) (.fixture fault)
  | .monitor request =>
    match run.bridge.deliver run.host request.capability (requestJson sc.workspace request) with
    | (.ok (), bridge) => ({ run with bridge } : Run σ).goesOn
    | (.error fault, bridge) =>
      ({ run with bridge } : Run σ).stops (some step.name) (.bridge fault)
  | _ => run.goesOn

/-! ## Steps that assert -/

/-- How long a step waits: as it says itself, else as the script says, else as configured. -/
def timeoutOf (sc : Scenario) (wait : ParcelWait) : Nat :=
  (wait.timeout <|> sc.script.timeout).getD sc.config.waitTimeout

/-- A path that is there, or that is not, as a message says it. -/
def presenceText (path : Path) (present : Bool) : String :=
  Path.text path ++ (if present then " exists" else " absent")

def isPresent (h : Host) (path : Path) : Except OsFault Bool :=
  match h.status false path with
  | .ok _ => .ok true
  | .error fault => if fault.isNotFound then .ok false else .error fault

def checkPresence {σ : Type} (sc : Scenario) (step : String) (path : Path) (wanted : Bool)
    (run : Run σ) : Progress σ :=
  let full := sc.workspace.resolve path
  match isPresent run.host full with
  | .error fault => run.stops (some step) (.capture (.io full fault))
  | .ok present =>
    if present = wanted then run.goesOn
    else run.fails ⟨step, .existence, presenceText path wanted, presenceText path present⟩

def checkState {σ : Type} (sc : Scenario) (step : String) (path : Path)
    (expect : AttributeExpectations) (run : Run σ) : Progress σ :=
  let run := { run with captures := run.captures + 1 }
  match run.host.capture (sc.workspace.resolve path) expect.kinds with
  | .error (.fault fault) =>
    if fault.isNotFound then
      run.fails ⟨step, .notFound, expect.describe, Path.text path ++ " does not exist"⟩
    else run.stops (some step) (.capture fault)
  | .error (.overflow kind) => run.stops (some step) (.overflow kind)
  | .ok snapshot =>
    match expect.verify snapshot with
    | none => run.goesOn
    | some m =>
      run.fails ⟨step, .mismatch, m.kind.name ++ "=" ++ m.expected, m.kind.name ++ "=" ++ m.actual⟩

/-- Carries out a step that asserts; any other step is left out. -/
def assert {σ : Type} (sc : Scenario) (run : Run σ) (step : Step) : Progress σ :=
  match step.directive with
  | .await wait => run.waitFor sc step.name wait.expect (timeoutOf sc wait)
  | .presence path present => run.checkPresence sc step.name path present
  | .fileState path expect => run.checkState sc step.name path expect
  | _ => run.goesOn

/-! ## The whole run -/

/-- What is wrong with all that came from the plugin: parcels that were lost, data that was no
parcel, or the first parcel out of order. -/
def streamFailure? (config : Config) (stats : ChannelStats) (observed : List Parcel) :
    Option ExpectationFailure :=
  if 0 < stats.dropped then
    some ⟨"capture", .captureOverflow,
      "at most " ++ toString config.captureCapacity ++ " buffered parcels",
      toString stats.dropped ++ " dropped"⟩
  else if 0 < stats.malformed then
    some ⟨"capture", .malformedParcel, "well-formed parcels",
      toString stats.malformed ++ " rejected at the boundary"⟩
  else
    (StreamValidator.validate observed).head?.map fun violation =>
      ⟨"stream", .orderingViolation, violation.rule, violation.message⟩

def checkStream {σ : Type} (sc : Scenario) (run : Run σ) : Progress σ :=
  let run := run.idle
  match streamFailure? sc.config run.bridge.stats run.observed with
  | none => run.goesOn
  | some failure => run.fails failure

/-- Carries out a script with a plugin that was started. -/
def execute {σ : Type} (sc : Scenario) (run : Run σ) : Progress σ :=
  (each (prepare sc) (run.enter .before) (sc.script.stepsIn .before)).andThen fun run =>
  ((run.enter .trigger).collect none).andThen fun run =>
  (each (assert sc) (run.enter .after) (sc.script.stepsIn .after)).andThen fun run =>
  (run.collect none).andThen fun run =>
  (run.checkStream sc).andThen fun run =>
  (run.enter .done).goesOn

end Run

end Conformance
