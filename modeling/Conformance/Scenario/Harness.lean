import Conformance.Scenario.Run
import Conformance.Script.Document

/-!
# Running scenarios

A scenario gets a workspace of its own and a plugin. However its run ends, a plugin that was started
is stopped, and only then the workspace is removed, for the plugin may watch paths in it until it is
stopped. The report is made of all of this. A run that breaks off ends in the same way, but whoever
has called it breaks off as well, and gets no report.
-/

namespace Conformance

/-- Where the plugin of a scenario comes from. -/
inductive Source (σ : Type) where
  /-- It is at hand. -/
  | given (plugin : Plugin σ) (state : σ)
  /-- It is the module of a path. -/
  | library (path : Path)
  /-- It is the module that the script names. -/
  | script

/-- A harness: the host, and how it finds workspaces, modules and the time. -/
structure Harness (σ : Type) where
  host : Host
  /-- The path of the next workspace. -/
  root : Path
  /-- The plugin of a module with its state, or why it cannot be loaded. -/
  load : Path → Except String (Plugin σ × σ)
  config : Config
  clock : Clock

/-- What is left after a scenario. -/
structure Ended (σ : Type) where
  /-- The report. `Ended.given?` is what the caller gets of it. -/
  report : Report
  files : FileSystem
  /-- The state of the plugin, if there was one. -/
  plugin : Option σ

/-- The report that the caller gets, if the scenario has not broken off. -/
def Ended.given? {σ : Type} (e : Ended σ) : Option Report :=
  if e.report.brokeOff then none else some e.report

namespace Harness

/-- The harness with another configuration, whose clock goes on by one pause between two looks. -/
def configured {σ : Type} (hn : Harness σ) (config : Config) : Harness σ :=
  { hn with config, clock := .steady config.pause }

/-! ## The plugin -/

/-- Why there is no bridge, and the state of the plugin if there was one. -/
abbrev StartFault (σ : Type) := HarnessFault × Option σ

def attach {σ : Type} (hn : Harness σ) (h : Host) (plugin : Plugin σ) (state : σ) :
    Except (StartFault σ) (Bridge σ) :=
  match Bridge.attach h plugin state hn.config.settings hn.config.captureCapacity with
  | .ok bridge => .ok bridge
  | .error (fault, state) => .error (.bridge fault, some state)

def loadFrom {σ : Type} (hn : Harness σ) (h : Host) (path : Path) :
    Except (StartFault σ) (Bridge σ) :=
  match hn.load path with
  | .ok (plugin, state) => hn.attach h plugin state
  | .error reason => .error (.bridge (.load path reason), none)

def startPlugin {σ : Type} (hn : Harness σ) (h : Host) (script : Script) :
    Source σ → Except (StartFault σ) (Bridge σ)
  | .given plugin state => hn.attach h plugin state
  | .library path => hn.loadFrom h path
  | .script =>
    match script.plugin with
    | some path => hn.loadFrom h path
    | none => .error (.noPlugin, none)

/-! ## Reports -/

/-- The report of a scenario that did not come to its steps. -/
def refusal (scenario : String) (step : Option String) (fault : HarnessFault) : Report where
  scenario
  plugin := none
  verdict := .errored step fault
  phase := .parse
  parcelsObserved := 0
  captures := 0
  stats := .zero
  teardown := none

/-- The report of a script that cannot be read. A malformed step is named. -/
def scriptRefusal (scenario : String) (fault : ScriptFault) : Report :=
  let step := match fault with
    | .malformed step _ => some step
    | _ => none
  refusal scenario step (.script fault)

/-- The verdict on a run that ended in a way, whose plugin stopped in a way. -/
def verdictOf : Option Halt → Except BridgeFault Unit → Verdict
  | none, .ok () => .passed
  | none, .error fault => .errored none (.bridge fault)
  | some (.failed failure), _ => .failed failure
  | some (.errored step fault), _ => .errored step fault

/-- What went wrong when the plugin of a run was stopped that had halted before. -/
def teardownOf : Option Halt → Except BridgeFault Unit → Option BridgeFault
  | some _, .error fault => some fault
  | _, _ => none

/-- Stops the plugin of a run, removes the workspace, and reports. -/
def conclude {σ : Type} (script : Script) (ws : Workspace) (p : Progress σ) : Ended σ :=
  let run := p.run.idle
  let (unloaded, bridge) := run.bridge.unload run.host
  let report : Report := {
    scenario := script.name
    plugin := run.bridge.currentDescriptor.toOption.map (·.name)
    verdict := verdictOf p.halt unloaded
    phase := run.phase
    parcelsObserved := run.observed.length
    captures := run.captures
    stats := run.bridge.stats
    teardown := teardownOf p.halt unloaded }
  ⟨report, ws.remove run.host, some bridge.state⟩

/-! ## Scenarios -/

/-- Runs a script with a plugin that was started in its workspace. -/
def runAttached {σ : Type} (hn : Harness σ) (h : Host) (ws : Workspace) (script : Script)
    (bridge : Bridge σ) : Ended σ :=
  let sc : Scenario := {
    script, config := hn.config, clock := hn.clock, workspace := ws
    placeholders := ⟨bridge.descriptor.name, Path.text ws.root⟩ }
  conclude script ws (Run.execute sc ⟨h, bridge, [], 0, 0, .parse⟩)

def run {σ : Type} (hn : Harness σ) (script : Script) (source : Source σ) : Ended σ :=
  match Workspace.create hn.host.files hn.root with
  | .error fault => ⟨refusal script.name none (.fixture fault), hn.host.files, none⟩
  | .ok (files, ws) =>
    let h := { hn.host with files }
    match hn.startPlugin h script source with
    | .error (fault, state) => ⟨refusal script.name none fault, ws.remove h, state⟩
    | .ok bridge => hn.runAttached h ws script bridge

def runText {σ : Type} (hn : Harness σ) (text : String) (source : Source σ) : Ended σ :=
  match Script.ofText text with
  | .ok script => hn.run script source
  | .error fault => ⟨scriptRefusal "" fault, hn.host.files, none⟩

/-- Runs the script in a file, with the module of a path if one is given, else with the one that
the script names. -/
def runFile {σ : Type} (hn : Harness σ) (path : Path) (plugin : Option Path) : Ended σ :=
  match Script.ofFile hn.host.files path with
  | .ok script => hn.run script ((plugin.map Source.library).getD .script)
  | .error fault =>
    ⟨scriptRefusal (Script.fallbackName path) fault, hn.host.files, none⟩

/-- The reports on scripts in files that are run one after the other, each on the files that the
one before it left, and whether the last of them has broken off. -/
def runFiles {σ : Type} (hn : Harness σ) (plugin : Option Path) :
    List Path → List Report × Bool
  | [] => ([], false)
  | path :: r =>
    let ended := hn.runFile path plugin
    match ended.given? with
    | none => ([], true)
    | some report =>
      let (reports, brokeOff) :=
        runFiles { hn with host := { hn.host with files := ended.files } } plugin r
      (report :: reports, brokeOff)

end Harness

end Conformance
