import Conformance.Errno
import Conformance.Path
import Conformance.Permissions

/-!
# File systems

A file system is a finite map from locations to nodes. A location is the list of names from the
root of the file system down; it has no `.`, no `..` and no link on the way, so two locations are
the same file exactly when they are equal. Paths are led to locations in `FileSystem.Lookup`, and
`FileSystem.Calls` holds the calls that change a file system.

The caller owns every node and has no privilege, so the owner's three bits decide what it may do.
-/

namespace Conformance

/-- The names from the root of the file system down to a file. -/
abbrev Location := List Bytes

/-- A file. -/
inductive Node where
  | directory (mode : Permissions)
  | file (mode : Permissions) (content : Bytes)
  | link (target : Path)
  deriving Repr, DecidableEq

namespace Node

def isDirectory : Node → Bool
  | .directory _ => true
  | _ => false

/-- The permissions of a node; everything is allowed on a link. -/
def permissions : Node → Permissions
  | .directory mode => mode
  | .file mode _ => mode
  | .link _ => ⟨0o777⟩

/-- The node with other permissions; those of a link cannot be changed. -/
def withPermissions (mode : Permissions) : Node → Node
  | .directory _ => .directory mode
  | .file _ content => .file mode content
  | .link target => .link target

def readable (n : Node) : Bool := n.permissions.has 0o400

def writable (n : Node) : Bool := n.permissions.has 0o200

/-- Whether the owner may look names up. -/
def searchable (n : Node) : Bool := n.permissions.has 0o100

end Node

/-- A file system: nodes by location. -/
structure FileSystem where
  /-- The nodes, in the order in which they came to be; the first one of a location counts. -/
  nodes : List (Location × Node)
  /-- Where relative paths start. -/
  start : Location
  deriving Repr

namespace FileSystem

def get? (fs : FileSystem) (loc : Location) : Option Node := fs.nodes.lookup loc

/-- Gives a location a node of its own at the end of the order. -/
def add (fs : FileSystem) (loc : Location) (node : Node) : FileSystem :=
  { fs with nodes := fs.nodes.filter (·.1 ≠ loc) ++ [(loc, node)] }

/-- Puts another node at a location that has one. -/
def replace (fs : FileSystem) (loc : Location) (node : Node) : FileSystem :=
  { fs with nodes := fs.nodes.map fun e => if e.1 = loc then (loc, node) else e }

def erase (fs : FileSystem) (loc : Location) : FileSystem :=
  { fs with nodes := fs.nodes.filter (·.1 ≠ loc) }

def newDirectory : Permissions := ⟨0o755⟩

def newFile : Permissions := ⟨0o644⟩

/-- The file system with a root directory and nothing in it. -/
def empty : FileSystem := ⟨[([], .directory newDirectory)], []⟩

/-- The name below a directory, if the location is directly below it. -/
def childName? (dir loc : Location) : Option Bytes :=
  match loc.getLast? with
  | some name => if loc.dropLast = dir then some name else none
  | none => none

def children (fs : FileSystem) (dir : Location) : List Bytes :=
  fs.nodes.filterMap fun e => childName? dir e.1

def isEmptyDir (fs : FileSystem) (dir : Location) : Bool := (fs.children dir).isEmpty

/-- The length of the longest location. -/
def depth (fs : FileSystem) : Nat := fs.nodes.foldl (fun n e => max n e.1.length) 0

end FileSystem

end Conformance
