import Conformance.FileSystem.Calls
import Conformance.Settings
import Conformance.Toml.Document

/-!
# Configuration

How long the harness waits, how often it looks, how much it buffers, and the settings it hands to a
plugin. A configuration file gives some of these, the environment overrides the numbers, and what
neither gives has a value of its own.
-/

namespace Conformance

structure Config where
  /-- The milliseconds that any one wait for parcels may take. -/
  waitTimeout : Nat
  /-- The milliseconds between two looks at the channel. -/
  pollInterval : Nat
  /-- The number of parcels that the channel holds. -/
  captureCapacity : Nat
  /-- What the plugin is started with. -/
  settings : Settings
  deriving Repr, DecidableEq

/-- Why there is no configuration. -/
inductive ConfigFault where
  | read (path : Path) (fault : OsFault)
  | parse (path : Path)
  /-- A variable of the environment is no number. -/
  | variable (name : String) (value : String)
  deriving Repr, DecidableEq

/-- What a fault comes from, if it comes from another one. -/
def ConfigFault.cause? : ConfigFault → Option String
  | .read _ fault => some fault.message
  | .parse _ => some "not a configuration in TOML"
  | .variable .. => none

/-- The text of the fault, with what it comes from. -/
def ConfigFault.message : ConfigFault → String
  | .read path fault => "cannot read config " ++ Path.text path ++ ": " ++ fault.message
  | .parse path => "invalid config " ++ Path.text path ++ ": not a configuration in TOML"
  | .variable name value =>
    "environment variable " ++ name ++ "=" ++ Text.quoted value ++ " is not a number"

abbrev Environment := String → Option Bytes

namespace Config

/-- The configuration where nothing is given. -/
def standard : Config := ⟨5000, 25, 4096, []⟩

def json (c : Config) : Json :=
  Json.object [("wait_timeout_ms", .nat c.waitTimeout), ("poll_interval_ms", .nat c.pollInterval),
    ("capture_capacity", .nat c.captureCapacity), ("settings", c.settings.json)]

/-- How long to wait between two looks at the channel: one millisecond at least. -/
def pause (c : Config) : Nat := max c.pollInterval 1

/-! ## Files -/

/-- A configuration in a document. What is left out has its standard value. -/
def reader : Reader Config := fun d => do
  let es ← Reader.entries .json "a configuration" false
    [.of "wait_timeout_ms" Reader.word64, .of "poll_interval_ms" Reader.word64,
      .of "capture_capacity" Reader.count, .of "settings" Settings.reader] d
  return {
    waitTimeout := ← es.default "wait_timeout_ms" Reader.word64 standard.waitTimeout
    pollInterval := ← es.default "poll_interval_ms" Reader.word64 standard.pollInterval
    captureCapacity := ← es.default "capture_capacity" Reader.count standard.captureCapacity
    settings := ← es.default "settings" Settings.reader standard.settings }

def ofText? (text : String) : Option Config := do
  let table ← Toml.parse? text
  (reader (.map (Toml.entryDatums table))).toOption

def ofFile (files : FileSystem) (path : Path) : Except ConfigFault Config :=
  match files.read path with
  | .error fault => .error (.read path fault)
  | .ok content =>
    match Utf8.decode? content with
    | none => .error (.read path .notUtf8)
    | some text =>
      match ofText? text with
      | some c => .ok c
      | none => .error (.parse path)

/-! ## The environment -/

def timeoutVariable : String := "PLUGIN_HARNESS_TIMEOUT_MS"

def pollVariable : String := "PLUGIN_HARNESS_POLL_MS"

def capacityVariable : String := "PLUGIN_HARNESS_CAPACITY"

/-- The number in a variable, without the blanks around it. A value that is no text counts as not
set. -/
def variableNumber (env : Environment) (name : String) : Except ConfigFault (Option Nat) :=
  match (env name).bind Utf8.decode? with
  | none => .ok none
  | some value =>
    match Digits.word64? (Text.trim value) with
    | some n => .ok (some n)
    | none => .error (.variable name value)

/-- The configuration with the numbers of the environment. -/
def overriddenBy (env : Environment) (c : Config) : Except ConfigFault Config := do
  let timeout ← variableNumber env timeoutVariable
  let poll ← variableNumber env pollVariable
  let capacity ← variableNumber env capacityVariable
  return { c with
    waitTimeout := timeout.getD c.waitTimeout
    pollInterval := poll.getD c.pollInterval
    captureCapacity := capacity.getD c.captureCapacity }

/-- The configuration of a file, if one is given, with the numbers of the environment. -/
def load (files : FileSystem) (path : Option Path) (env : Environment) :
    Except ConfigFault Config := do
  let given ← match path with
    | some path => ofFile files path
    | none => .ok standard
  given.overriddenBy env

end Config

end Conformance
