import Conformance.Host

/-!
# Workspaces and fixtures

A scenario runs in a workspace, a directory of its own. A fixture is one change of it: the path it
names and the action on that path. Fixtures are confined. The path has to be relative without `..`,
its nearest ancestor that is there has to lie in the workspace with all links resolved, and every
action but `remove` and `symlink` refuses a path that is a link; a new link needs a target that is
relative without `..` as well. These checks come before any change.
-/

namespace Conformance

inductive FixtureAction where
  | create (content : Bytes) (mode : Option Permissions)
  | mkdir (mode : Option Permissions)
  | symlink (target : Path)
  | chmod (mode : Permissions)
  | write (content : Bytes)
  | append (content : Bytes)
  | remove
  deriving Repr, DecidableEq

def FixtureAction.name : FixtureAction → String
  | .create .. => "create"
  | .mkdir _ => "mkdir"
  | .symlink _ => "symlink"
  | .chmod _ => "chmod"
  | .write _ => "write"
  | .append _ => "append"
  | .remove => "remove"

/-- Whether an action may be about a link itself. -/
def FixtureAction.actsOnLinks : FixtureAction → Bool
  | .symlink _ | .remove => true
  | _ => false

structure Fixture where
  /-- The path, seen from the root of the workspace. -/
  path : Path
  action : FixtureAction
  deriving Repr, DecidableEq

inductive FixtureFault where
  | workspace (root : Path) (fault : OsFault)
  | io (action : String) (path : Path) (fault : OsFault)
  | escapes (path : Path)
  /-- The path is a link, and the action would go through it. -/
  | throughSymlink (action : String) (path : Path)
  | unsupported
  deriving Repr, DecidableEq

def FixtureFault.message : FixtureFault → String
  | .workspace root fault =>
    "cannot create scenario workspace: " ++ fault.message ++ " at path "
      ++ Text.quoted (Path.text root)
  | .io action path fault => action ++ " " ++ Path.text path ++ ": " ++ fault.message
  | .escapes path => Path.text path ++ " resolves outside the scenario workspace"
  | .throughSymlink action path =>
    "refusing to " ++ action ++ " through symlink " ++ Path.text path
  | .unsupported => "symlinks are not supported on this platform"

/-- The directory in which a scenario runs. -/
structure Workspace where
  root : Path
  /-- Where the directory really is. -/
  location : Location
  deriving Repr, DecidableEq

namespace Workspace

/-- A path of the workspace as a path of the host. -/
def resolve (ws : Workspace) (p : Path) : Path := Path.append ws.root p

/-! ## Confinement -/

/-- Looks for the nearest ancestor that is there, which has to lie in the workspace. `fuel` bounds
the number of ancestors. -/
def confineAncestor (ws : Workspace) (files : FileSystem) (action : String) (path : Path) :
    Nat → Option Path → Except FixtureFault Unit
  | _, none | 0, _ => .ok ()
  | fuel + 1, some dir =>
    match files.canonicalize dir with
    | .ok loc => if ws.location.isPrefixOf loc then .ok () else .error (.escapes path)
    | .error fault =>
      if fault.isNotFound then confineAncestor ws files action path fuel (Path.parent dir)
      else .error (.io action path fault)

/-- Refuses a path whose directory lies outside the workspace, and a link where the action would go
through it. -/
def confine (ws : Workspace) (h : Host) (action : FixtureAction) (path : Path) :
    Except FixtureFault Unit := do
  ws.confineAncestor h.files action.name path (path.length + 1) (Path.parent path)
  if action.actsOnLinks then .ok ()
  else
    match h.status false path with
    | .ok s => if s.isLink then .error (.throughSymlink action.name path) else .ok ()
    | .error fault => if fault.isNotFound then .ok () else .error (.io action.name path fault)

/-! ## Application -/

/-- The directories above a path. -/
def ensureParent (h : Host) (path : Path) : Attempt :=
  match Path.parent path with
  | some up => h.mkdirAll up
  | none => ⟨h.files, none⟩

def setMode (path : Path) (mode : Option Permissions) (files : FileSystem) : Attempt :=
  match mode with
  | some mode => Attempt.ofCall files (files.chmod mode path)
  | none => ⟨files, none⟩

/-- Does what an action says at a path that is allowed. -/
def perform (h : Host) (path : Path) : FixtureAction → Attempt
  | .create content mode =>
    ((ensureParent h path).andThen fun fs => Attempt.ofCall fs (fs.write content path)).andThen
      (setMode path mode)
  | .mkdir mode => (h.mkdirAll path).andThen (setMode path mode)
  | .symlink target =>
    (ensureParent h path).andThen fun fs => Attempt.ofCall fs (fs.symlink target path)
  | .chmod mode => setMode path (some mode) h.files
  | .write content => Attempt.ofCall h.files (h.files.write content path)
  | .append content => Attempt.ofCall h.files (h.files.extend content path)
  | .remove =>
    match h.status false path with
    | .error fault => ⟨h.files, some fault⟩
    | .ok s =>
      if s.isDirectory then h.removeAll path else Attempt.ofCall h.files (h.files.unlink path)

/-- The target of a new link that leads out of the workspace by its names. -/
def strayTarget? : FixtureAction → Option Path
  | .symlink target => if Path.isContained target then none else some target
  | _ => none

/-- Applies a fixture: the files after it, and why it was refused or stopped, if it was. -/
def apply (ws : Workspace) (h : Host) (fixture : Fixture) : FileSystem × Option FixtureFault :=
  let path := ws.resolve fixture.path
  if !Path.isContained fixture.path then (h.files, some (.escapes path))
  else
    match ws.confine h fixture.action path with
    | .error fault => (h.files, some fault)
    | .ok () =>
      match strayTarget? fixture.action with
      | some target => (h.files, some (.escapes target))
      | none =>
        let done := perform h path fixture.action
        (done.files, done.fault.map fun fault => .io fixture.action.name path fault)

/-- Makes a workspace at a path that is still free. -/
def create (files : FileSystem) (root : Path) : Except FixtureFault (FileSystem × Workspace) :=
  match files.mkdir root with
  | .error fault => .error (.workspace root fault)
  | .ok fs =>
    match fs.canonicalize root with
    | .error fault => .error (.workspace root fault)
    | .ok loc => .ok (fs, ⟨root, loc⟩)

/-- Removes the workspace with everything in it, as far as that can be done. -/
def remove (ws : Workspace) (h : Host) : FileSystem := (h.removeAll ws.root).files

end Workspace

end Conformance
