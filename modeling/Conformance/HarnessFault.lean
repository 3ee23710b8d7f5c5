import Conformance.Bridge
import Conformance.Capture
import Conformance.Config
import Conformance.Script.Fault
import Conformance.Workspace

/-!
# Faults of the harness

Everything that keeps a scenario from being decided, with the coarse class that a report gives.
-/

namespace Conformance

inductive FaultCategory where
  /-- A module could not be found or loaded. -/
  | load
  | plugin
  | script
  | capture
  | fixture
  | config
  deriving Repr, DecidableEq

namespace FaultCategory

def name : FaultCategory → String
  | .load => "load"
  | .plugin => "plugin"
  | .script => "script"
  | .capture => "capture"
  | .fixture => "fixture"
  | .config => "config"

/-- The title of a class, as the line of a report shows it. -/
def title : FaultCategory → String
  | .load => "Load"
  | .plugin => "Plugin"
  | .script => "Script"
  | .capture => "Capture"
  | .fixture => "Fixture"
  | .config => "Config"

end FaultCategory

inductive HarnessFault where
  | bridge (fault : BridgeFault)
  | capture (fault : CaptureFault)
  | script (fault : ScriptFault)
  | fixture (fault : FixtureFault)
  | config (fault : ConfigFault)
  /-- Nobody names a plugin. -/
  | noPlugin
  /-- A capture breaks off at a time, and the harness with it. Nobody gets to see this one. -/
  | overflow (kind : TimestampKind)
  deriving Repr, DecidableEq

namespace HarnessFault

def message : HarnessFault → String
  | .bridge fault => fault.message
  | .capture fault => fault.message
  | .script fault => fault.message
  | .fixture fault => fault.message
  | .config fault => fault.message
  | .noPlugin => "no plugin module given on the command line or in the script"
  | .overflow kind => "the milliseconds of " ++ kind.name ++ " have no room"

def category : HarnessFault → FaultCategory
  | .bridge (.load ..) | .noPlugin => .load
  | .bridge _ => .plugin
  | .capture _ | .overflow _ => .capture
  | .script _ => .script
  | .fixture _ => .fixture
  | .config _ => .config

end HarnessFault

end Conformance
