import Conformance.Expectation.Attributes
import Conformance.Expectation.Parcels
import Conformance.Phase
import Conformance.Workspace

/-!
# Scripts

A script names a plugin and lists steps. Steps that prepare, fixtures and requests to the plugin,
come before the steps that assert, however the two are mixed in the document; within either sort
the order of the document counts.
-/

namespace Conformance

inductive PluginKind where
  | file
  deriving Repr, DecidableEq

def PluginKind.ofName? (name : String) : Option PluginKind :=
  if name = "file" then some .file else none

structure MonitorRequest where
  /-- The path, seen from the root of the workspace. -/
  path : Path
  capability : String
  attributes : List AttributeKind
  /-- Configuration for the plugin. -/
  config : List (String × Json)
  deriving Repr

structure ParcelWait where
  expect : ParcelExpectation
  /-- How many milliseconds to wait, if the step says so itself. -/
  timeout : Option Nat
  deriving Repr, DecidableEq

inductive Directive where
  | fixture (change : Fixture)
  | monitor (request : MonitorRequest)
  | await (wait : ParcelWait)
  /-- Asserts that a path is there, or that it is not. -/
  | presence (path : Path) (present : Bool)
  | fileState (path : Path) (expect : AttributeExpectations)
  deriving Repr

namespace Directive

def phase : Directive → Phase
  | .fixture _ | .monitor _ => .before
  | .await _ | .presence .. | .fileState .. => .after

def word : Directive → String
  | .fixture _ => "before"
  | .monitor _ => "monitor-request"
  | .await _ => "after"
  | .presence .. => "exists"
  | .fileState .. => "file-state"

end Directive

/-- A step of a script. -/
structure Step where
  name : String
  index : Nat
  directive : Directive
  deriving Repr

structure Script where
  name : String
  description : Option String
  kind : PluginKind
  /-- How many milliseconds to wait for parcels, if the script says so. -/
  timeout : Option Nat
  plugin : Option Path
  steps : List Step
  deriving Repr

/-- The steps of one phase in the order of the document. -/
def Script.stepsIn (s : Script) (phase : Phase) : List Step :=
  s.steps.filter fun step => step.directive.phase = phase

end Conformance
