import Conformance.Path
import Conformance.Text.Digits

/-!
# The command line

The arguments of the program are read from left to right. An option with a value takes it from its
own argument, after `=`, or from the next one, which must not look like an option itself. Scripts
may be given several times, everything else once. The first fault counts; a request for help or for
the version counts if no fault is before it.
-/

namespace Conformance

inductive ValueOption where
  | plugin
  | script
  | config
  | timeout
  deriving Repr, DecidableEq

namespace ValueOption

def names : List (String × ValueOption) :=
  [("plugin", .plugin), ("script", .script), ("config", .config), ("timeout-ms", .timeout)]

def name : ValueOption → String
  | .plugin => "plugin"
  | .script => "script"
  | .config => "config"
  | .timeout => "timeout-ms"

end ValueOption

/-- Why the arguments cannot be understood. -/
inductive UsageFault where
  /-- There is no such option, and no place for any other argument. -/
  | unexpected (argument : String)
  | missingValue (option : ValueOption)
  | invalidValue (option : ValueOption) (value : String)
  /-- An option that may be given once is given twice. -/
  | repeated (option : String)
  | noScript
  deriving Repr, DecidableEq

def UsageFault.message : UsageFault → String
  | .unexpected argument => "unexpected argument '" ++ argument ++ "'"
  | .missingValue option => "no value for '--" ++ option.name ++ "'"
  | .invalidValue option value => "invalid value '" ++ value ++ "' for '--" ++ option.name ++ "'"
  | .repeated option => "'--" ++ option ++ "' cannot be used more than once"
  | .noScript => "'--script' is required"

/-- What the program is to do, as far as the arguments say it. -/
structure Options where
  /-- The module of the plugin, in place of the one that a script names. -/
  plugin : Option Path
  /-- The scripts, in order. -/
  scripts : List Path
  config : Option Path
  /-- The milliseconds that a wait may take. -/
  timeout : Option Nat
  /-- Whether reports are printed in JSON. -/
  json : Bool
  deriving Repr, DecidableEq

namespace Options

def none : Options := ⟨.none, [], .none, .none, false⟩

def pathValue (option : ValueOption) (value : String) : Except UsageFault Path :=
  if value = "" then .error (.invalidValue option value) else .ok (Path.ofText value)

/-- A value for an option that may be given once. -/
def once {α : Type} (option : ValueOption) (given : Option α) (value : Except UsageFault α) :
    Except UsageFault (Option α) :=
  if given.isSome then .error (.repeated option.name) else value.map some

def set (o : Options) (option : ValueOption) (value : String) : Except UsageFault Options :=
  match option with
  | .plugin =>
    (once option o.plugin (pathValue option value)).map fun plugin => { o with plugin }
  | .config =>
    (once option o.config (pathValue option value)).map fun config => { o with config }
  | .script =>
    (pathValue option value).map fun path => { o with scripts := o.scripts ++ [path] }
  | .timeout =>
    let number := match Digits.word64? value with
      | some n => Except.ok n
      | .none => .error (.invalidValue option value)
    (once option o.timeout number).map fun timeout => { o with timeout }

end Options

/-- An argument by its form. -/
inductive Argument where
  /-- Two dashes and a name, and what follows after an equals sign. -/
  | long (name : String) (value : Option String)
  /-- One dash and letters, of which this is the first. -/
  | short (letter : Char)
  /-- Two dashes: no option comes after them. -/
  | separator
  /-- Anything else. -/
  | plain
  deriving Repr, DecidableEq

def Argument.ofText (s : String) : Argument :=
  match s.toList with
  | ['-', '-'] => .separator
  | '-' :: '-' :: cs =>
    let name := String.ofList (cs.takeWhile (· ≠ '='))
    match cs.dropWhile (· ≠ '=') with
    | _ :: value => .long name (some (String.ofList value))
    | [] => .long name none
  | '-' :: letter :: _ => .short letter
  | _ => .plain

/-- What the arguments ask for. -/
inductive CommandLine where
  | run (options : Options)
  | help
  | version
  deriving Repr, DecidableEq

namespace CommandLine

/-- The end of the arguments. -/
def finish (o : Options) : Except UsageFault CommandLine :=
  if o.scripts.isEmpty then .error .noScript else .ok (.run o)

/-- Reads arguments after those that gave some options. -/
def parseFrom (o : Options) : List String → Except UsageFault CommandLine
  | [] => finish o
  | argument :: r =>
    match Argument.ofText argument with
    | .plain => .error (.unexpected argument)
    | .separator =>
      match r with
      | [] => finish o
      | next :: _ => .error (.unexpected next)
    | .short 'h' => .ok .help
    | .short 'V' => .ok .version
    | .short _ => .error (.unexpected argument)
    | .long "help" none => .ok .help
    | .long "version" none => .ok .version
    | .long "json" none =>
      if o.json then .error (.repeated "json") else parseFrom { o with json := true } r
    | .long name value =>
      match ValueOption.names.lookup name, value, r with
      | none, _, _ => .error (.unexpected argument)
      | some option, some value, r => (o.set option value).bind fun o => parseFrom o r
      | some option, none, [] => .error (.missingValue option)
      | some option, none, value :: r =>
        if Argument.ofText value = .plain then (o.set option value).bind fun o => parseFrom o r
        else .error (.missingValue option)

def parse (arguments : List String) : Except UsageFault CommandLine :=
  parseFrom .none arguments

end CommandLine

end Conformance
