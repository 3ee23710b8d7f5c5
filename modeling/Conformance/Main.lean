import Conformance.CommandLine.Answer
import Conformance.FileWatch.Module

/-!
# The program

Runs scenario scripts from the command line. The scripts and the configuration are read from disk;
the scenarios themselves run on files of their own that only last as long as the program, so
nothing on disk is changed. The file watch is at hand under the name of its library.
-/

namespace Conformance.Program

/-- The names of the owner of all files. -/
def names : NameService where
  lookup _ id length := if id = 0 && 4 < length then .found (Utf8.encode "root") else .nothing

/-- The owners and times of all files. -/
def status : Status := ⟨0, 0, 0, ⟨0, 0⟩, ⟨0, 0⟩, ⟨0, 0⟩⟩

/-- A host with some files. -/
def hostOf (files : FileSystem) : Host := ⟨files, fun _ => none, status, names⟩

def temporary : Path := Path.ofText "/tmp"

/-- The files with one file more, and the directories above it. -/
def place (files : FileSystem) (path : Path) (content : Bytes) : FileSystem :=
  let made := match Path.parent path with
    | some up => ((hostOf files).mkdirAll up).files
    | none => files
  (made.write content path).toOption.getD made

def watchLibrary : Path := Path.ofText "libfile_watch.so"

def load (path : Path) :
    Except String (Plugin (NativeState FileWatch.Memory) × NativeState FileWatch.Memory) :=
  if Path.fileName path = some watchLibrary then
    .ok (FileWatch.native.plugin, NativeModule.initial none)
  else .error "no such module"

/-- The harness before it is configured. -/
def harness (files : FileSystem) : Harness (NativeState FileWatch.Memory) where
  host := hostOf files
  root := Path.append temporary (Path.ofText "plugin-harness")
  load
  config := .standard
  clock := .steady Config.standard.pause

def namedFiles (arguments : List String) : List Path :=
  match CommandLine.parse arguments with
  | .ok (.run o) => o.config.toList ++ o.scripts
  | _ => []

/-- The files of the program: those with these contents, and a directory for temporary files. -/
def filesOf (contents : List (Path × Bytes)) : FileSystem :=
  contents.foldl (fun files e => place files e.1 e.2)
    ((hostOf .empty).mkdirAll temporary).files

/-- The content of a file on disk, if it can be read. -/
def contentOnDisk (path : Path) : IO (Option (Path × Bytes)) := do
  try
    let content ← IO.FS.readBinFile (Path.text path)
    return some (path, content.toList)
  catch _ => return none

/-- The variables of the environment that the program reads. -/
def environment : IO Environment := do
  let names := [Config.timeoutVariable, Config.pollVariable, Config.capacityVariable]
  let values ← names.mapM fun name => return (name, (← IO.getEnv name).map Utf8.encode)
  return fun name => (values.lookup name).join

def run (arguments : List String) : IO UInt32 := do
  let contents ← (namedFiles arguments).filterMapM contentOnDisk
  let answer := CommandLine.answer (harness (filesOf contents)) (← environment) arguments
  IO.print answer.output
  IO.eprint answer.errors
  return UInt32.ofNat answer.code

end Conformance.Program

/-- The program. -/
def main (arguments : List String) : IO UInt32 := Conformance.Program.run arguments
