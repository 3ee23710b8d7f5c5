import Conformance.FileSystem.Calls
import Conformance.Script.Step
import Conformance.Yaml.Value

/-!
# Scripts in documents and files

A script is a mapping that says what sort of plugin it is for. What every script has is taken out of
it first; the rest belongs to that sort of plugin. A script in a file is named after the file if it
has no name, and its module is looked for beside the file.
-/

namespace Conformance.Script

/-- The capability that takes requests if a script does not say another. -/
def defaultCapability : String := "file-monitor"

/-- The keys that every script may have. -/
def ownKeys : List String := ["kind", "name", "description", "timeout_ms", "plugin"]

/-- Takes a text out of a mapping; null counts as missing. -/
def takeText (key : String) (entries : List (Datum × Datum)) :
    Except ScriptFault (Option String × List (Datum × Datum)) :=
  match Datum.remove key entries with
  | (none, rest) | (some .null, rest) => .ok (none, rest)
  | (some (.text s), rest) => .ok (some s, rest)
  | _ => .error (.invalid (.keyNotText key))

def kindOf (entries : List (Datum × Datum)) : Except ScriptFault PluginKind :=
  match Datum.lookup "kind" entries with
  | some (.text name) =>
    match PluginKind.ofName? name with
    | some kind => .ok kind
    | none => .error (.unsupportedKind name)
  | some _ => .error (.invalid .kindNotText)
  | none => .error .missingKind

/-- How long a script waits for parcels. -/
def timeoutOf (entries : List (Datum × Datum)) : Except ScriptFault (Option Nat) :=
  match Datum.lookup "timeout_ms" entries with
  | none => .ok none
  | some d =>
    match Reader.word64 d with
    | .ok n => .ok (some n)
    | .error _ => .error (.invalid .timeoutNotNatural)

/-- The rest of a script: the capability that takes its requests, and its steps. -/
def bodyReader : Reader (String × List Datum) := fun d => do
  let steps := Reader.list .script fun step => .ok step
  let es ← Reader.entries .script "a script" true
    [.of "capability" Reader.text, .of "steps" steps] d
  return (← es.default "capability" Reader.text defaultCapability, ← es.default "steps" steps [])

/-- The steps in the rest of a script, of which there has to be one at least. -/
def stepsOf (entries : List (Datum × Datum)) : Except ScriptFault (List Step) :=
  match bodyReader (.map entries) with
  | .error fault => .error (.invalid (.entries fault))
  | .ok (_, []) => .error (.invalid .noSteps)
  | .ok (capability, steps) =>
    match Step.ofList capability 0 steps with
    | .ok steps => .ok steps
    | .error (name, fault) => .error (.malformed name fault)

def ofDatum : Datum → Except ScriptFault Script
  | .map entries => do
    let kind ← kindOf entries
    let (name, rest) ← takeText "name" entries
    let (description, rest) ← takeText "description" rest
    let (plugin, rest) ← takeText "plugin" rest
    let timeout ← timeoutOf rest
    let steps ← stepsOf (ownKeys.foldl (fun es key => (Datum.remove key es).2) rest)
    return ⟨name.getD "", description, kind, timeout, plugin.map Path.ofText, steps⟩
  | _ => .error (.invalid .notMapping)

def ofText (text : String) : Except ScriptFault Script :=
  match Yaml.parse? text with
  | some d => ofDatum d
  | none => .error .yaml

/-- The name of a file without its extension. -/
def fallbackName (path : Path) : String := ((Path.fileStem path).map Utf8.lossy).getD ""

/-- A script as the one of a file: named after the file if it has no name, with its module seen from
the directory of the file. -/
def locatedAt (path : Path) (s : Script) : Script :=
  let plugin := match s.plugin, Path.parent path with
    | some p, some dir => some (Path.append dir p)
    | p, _ => p
  { s with name := if s.name.isEmpty then fallbackName path else s.name, plugin }

def ofFile (files : FileSystem) (path : Path) : Except ScriptFault Script :=
  match files.read path with
  | .error fault => .error (.read path fault)
  | .ok content =>
    match Utf8.decode? content with
    | none => .error (.read path .notUtf8)
    | some text => (ofText text).map (locatedAt path)

end Conformance.Script
