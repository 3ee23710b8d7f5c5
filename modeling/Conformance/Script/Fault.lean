import Conformance.Datum.Decode
import Conformance.Errno
import Conformance.Path
import Conformance.Permissions

/-!
# What is wrong with a script

Faults of a whole document and of one step, with their texts. A fault of a step carries the step's
name, or its number where it has no name that could be read.
-/

namespace Conformance

/-- What is wrong with a step. -/
inductive StepFault where
  | notMapping
  | nameNotText
  | missingKind
  | unknownKind (kind : String)
  /-- The entries of the step do not make a directive. -/
  | entries (fault : Fault)
  /-- The path leads out of the workspace by its names. -/
  | escapes (path : Path)
  /-- A mode is a number, so that the digits it was written with are lost. -/
  | bareMode (number : Int)
  | permission (fault : PermissionFault)
  | required (key : String)
  | aclEntry (text : String)
  | noAttributes
  deriving Repr, DecidableEq

def StepFault.message : StepFault → String
  | .notMapping => "step must be a mapping"
  | .nameNotText => "`name` must be a string"
  | .missingKind => "missing `kind`"
  | .unknownKind kind => "unknown step kind `" ++ kind ++ "`"
  | .entries fault => fault.message
  | .escapes path => "path " ++ Path.text path ++ " escapes the working directory"
  | .bareMode number =>
    "mode " ++ toString number ++ " must be quoted, e.g. \"0644\", or symbolic"
  | .permission fault => fault.message
  | .required key => "`" ++ key ++ "` is required"
  | .aclEntry text => "bad ACL entry `" ++ text ++ "`"
  | .noAttributes => "`expect` names no attributes"

/-- What is wrong with a script as a whole. -/
inductive DocumentFault where
  | notMapping
  | kindNotText
  | keyNotText (key : String)
  | timeoutNotNatural
  | entries (fault : Fault)
  | noSteps
  deriving Repr, DecidableEq

def DocumentFault.message : DocumentFault → String
  | .notMapping => "top level must be a mapping"
  | .kindNotText => "`kind` must be a string"
  | .keyNotText key => "`" ++ key ++ "` must be a string"
  | .timeoutNotNatural => "`timeout_ms` must be a non-negative integer"
  | .entries fault => fault.message
  | .noSteps => "no steps"

/-- Why there is no script. -/
inductive ScriptFault where
  | read (path : Path) (fault : OsFault)
  | yaml
  /-- The script does not say what sort of plugin it is for. -/
  | missingKind
  /-- The script is for another sort of plugin. -/
  | unsupportedKind (kind : String)
  | malformed (step : String) (fault : StepFault)
  | invalid (fault : DocumentFault)
  deriving Repr, DecidableEq

def ScriptFault.message : ScriptFault → String
  | .read path fault => "cannot read script " ++ Path.text path ++ ": " ++ fault.message
  | .yaml => "invalid YAML: not one well-formed document"
  | .missingKind => "script has no `kind`"
  | .unsupportedKind kind => "unsupported plugin kind `" ++ kind ++ "`"
  | .malformed step fault => "step `" ++ step ++ "`: " ++ fault.message
  | .invalid fault => "invalid script: " ++ fault.message

end Conformance
