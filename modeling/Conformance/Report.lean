import Conformance.HarnessFault
import Conformance.Phase

/-!
# Reports

What comes of a scenario: it passed, an expectation did not hold, or something kept it from being
decided. A report is one line for a reader and one object for a program.
-/

namespace Conformance

/-- In what way an expectation did not hold. -/
inductive FailureKind where
  | expectationTimeout
  | mismatch
  /-- A file whose attributes were asked for is not there. -/
  | notFound
  /-- A path is there, or is not, against the expectation. -/
  | existence
  | orderingViolation
  | captureOverflow
  | malformedParcel
  deriving Repr, DecidableEq

namespace FailureKind

def name : FailureKind → String
  | .expectationTimeout => "expectation-timeout"
  | .mismatch => "mismatch"
  | .notFound => "not-found"
  | .existence => "existence"
  | .orderingViolation => "ordering-violation"
  | .captureOverflow => "capture-overflow"
  | .malformedParcel => "malformed-parcel"

/-- The title of a kind of failure, as the line of a report shows it. -/
def title : FailureKind → String
  | .expectationTimeout => "ExpectationTimeout"
  | .mismatch => "Mismatch"
  | .notFound => "NotFound"
  | .existence => "Existence"
  | .orderingViolation => "OrderingViolation"
  | .captureOverflow => "CaptureOverflow"
  | .malformedParcel => "MalformedParcel"

end FailureKind

/-- The first expectation that did not hold. -/
structure ExpectationFailure where
  /-- The step that states the expectation. -/
  step : String
  kind : FailureKind
  expected : String
  actual : String
  deriving Repr, DecidableEq

/-- The failure as the line of a report shows it. -/
def ExpectationFailure.text (f : ExpectationFailure) : String :=
  "step `" ++ f.step ++ "` " ++ f.kind.title ++ ": expected " ++ f.expected ++ ", got " ++ f.actual

/-- What comes of a scenario. -/
inductive Verdict where
  | passed
  | failed (failure : ExpectationFailure)
  /-- Nothing is decided, because of a fault, if it belongs to a step then of this one. -/
  | errored (step : Option String) (fault : HarnessFault)
  deriving Repr, DecidableEq

def Verdict.json : Verdict → Json
  | .passed => .obj [("outcome", .str "passed")]
  | .failed f => .obj [("outcome", .str "failed"), ("step", .str f.step),
      ("kind", .str f.kind.name), ("expected", .str f.expected), ("actual", .str f.actual)]
  | .errored step fault => .obj [("outcome", .str "errored"),
      ("step", (step.map Json.str).getD .null), ("category", .str fault.category.name),
      ("error", .str fault.message)]

/-- What is known after a scenario. -/
structure Report where
  scenario : String
  /-- The name that the plugin declared, if it started. -/
  plugin : Option String
  verdict : Verdict
  /-- The last phase that was entered before the run ended. -/
  phase : Phase
  /-- The number of parcels that were taken from the plugin. -/
  parcelsObserved : Nat
  /-- The number of files whose attributes were captured. -/
  captures : Nat
  stats : ChannelStats
  /-- What went wrong when the plugin was stopped after the run had halted. -/
  teardown : Option BridgeFault
  deriving Repr, DecidableEq

namespace Report

def passed (r : Report) : Bool := r.verdict = .passed

/-- Whether the scenario has broken off. Then nobody gets the report. -/
def brokeOff (r : Report) : Bool :=
  match r.verdict with
  | .errored _ (.overflow _) => true
  | _ => false

/-- The exit code of a report: zero if it passed, one if it failed, two if it is not decided. -/
def exitCode (r : Report) : Nat :=
  match r.verdict with
  | .passed => 0
  | .failed _ => 1
  | .errored .. => 2

/-- The JSON form of a report. Its members stand in the order in which a reader wants them. -/
def json (r : Report) : Json :=
  let teardown := (r.teardown.map fun fault => ("teardown", Json.str fault.message)).toList
  .obj ([("scenario", .str r.scenario), ("plugin", (r.plugin.map Json.str).getD .null),
    ("verdict", r.verdict.json), ("phase", .str r.phase.name),
    ("parcels_observed", .nat r.parcelsObserved), ("captures", .nat r.captures),
    ("stats", r.stats.json)] ++ teardown)

/-- The verdict in the line of a report. -/
def verdictText (r : Report) : String :=
  match r.verdict with
  | .passed => "PASS " ++ r.scenario
  | .failed f => "FAIL " ++ r.scenario ++ " in " ++ r.phase.name ++ ": " ++ f.text
  | .errored step fault =>
    "ERROR " ++ r.scenario ++ " in " ++ r.phase.name
      ++ (step.map fun s => " step `" ++ s ++ "`").getD ""
      ++ " (" ++ fault.category.title ++ "): " ++ fault.message

def text (r : Report) : String :=
  r.verdictText ++ " [" ++ toString r.parcelsObserved ++ " parcels, " ++ toString r.captures
    ++ " captures, " ++ toString r.stats.dropped ++ " dropped]"
    ++ (r.teardown.map fun fault => "; teardown: " ++ fault.message).getD ""

end Report

end Conformance
