import Conformance.CommandLine
import Conformance.Json.Printer
import Conformance.Scenario.Harness

/-!
# Answers of the program

A call of the program prints the usage, its version, or one report after the other, and ends with
a code: the worst one of the reports, or that of an undecided scenario if the program did not come to run
one. If a scenario breaks off the program does, with a code of its own; what is said about it then is
left out here.
-/

namespace Conformance

/-- What a call of the program prints. -/
inductive Answer where
  | help
  | version
  | misused (fault : UsageFault)
  | unconfigured (fault : ConfigFault)
  /-- The reports, in JSON or line by line, up to a scenario that has broken off. -/
  | reported (json : Bool) (reports : List Report) (brokeOff : Bool)
  deriving Repr, DecidableEq

namespace Answer

def usage : String := "Usage: plugin-harness [OPTIONS] --script <YAML>

Options:
      --plugin <LIB>     Module of the plugin, in place of the one that a script names
      --script <YAML>    Scenario script; may be given several times
      --config <TOML>    Configuration file
      --timeout-ms <MS>  Milliseconds that a wait for parcels may take
      --json             Print reports in JSON
  -h, --help             Print this text
  -V, --version          Print the version
"

/-- What the program does, and how it is called. -/
def helpText : String :=
  "Run declarative conformance scenarios against a monitoring plugin\n\n" ++ usage

def versionText : String := "plugin-harness 0.1.0\n"

def reportText (json : Bool) (r : Report) : String :=
  (if json then r.json.pretty else r.text) ++ "\n"

/-- A fault of the configuration as it is printed: after the fault stands what it comes from. -/
def configFaultText (fault : ConfigFault) : String :=
  "Error: loading harness config: " ++ fault.message
    ++ (fault.cause?.map (": " ++ ·)).getD "" ++ "\n"

def output : Answer → String
  | .help => helpText
  | .version => versionText
  | .misused _ | .unconfigured _ => ""
  | .reported json reports _ => String.join (reports.map (reportText json))

def errors : Answer → String
  | .help | .version | .reported .. => ""
  | .misused fault => "error: " ++ fault.message ++ "\n\n" ++ usage
  | .unconfigured fault => configFaultText fault

/-- The exit code of a program that breaks off. -/
def brokenOffCode : Nat := 101

def code : Answer → Nat
  | .help | .version => 0
  | .misused _ | .unconfigured _ => 2
  | .reported _ reports brokeOff =>
    if brokeOff then brokenOffCode else reports.foldl (fun worst r => max worst r.exitCode) 0

end Answer

namespace CommandLine

/-- Runs the scripts that the options name. -/
def runWith {σ : Type} (hn : Harness σ) (env : Environment) (o : Options) : Answer :=
  match Config.load hn.host.files o.config env with
  | .error fault => .unconfigured fault
  | .ok config =>
    let config := { config with waitTimeout := o.timeout.getD config.waitTimeout }
    let (reports, brokeOff) := (hn.configured config).runFiles o.plugin o.scripts
    .reported o.json reports brokeOff

/-- Does what the arguments of the program ask for. The harness is configured anew. -/
def answer {σ : Type} (hn : Harness σ) (env : Environment) (arguments : List String) : Answer :=
  match parse arguments with
  | .ok (.run o) => runWith hn env o
  | .ok .help => .help
  | .ok .version => .version
  | .error fault => .misused fault

end CommandLine

end Conformance
