import Conformance.Acl.Attribute
import Conformance.FileSystem.Calls

/-!
# The host a scenario runs on

A host has files, a name service, and the status of every file: its mode, owners and times, and its
access control list. All files share their owners and times; whatever should differ is given path by path
as an `Overlay`, which acts on every question about the status of exactly that path text, and on
nothing else.
-/

namespace Conformance

/-- A point in time, as a file's status holds it. -/
structure FileTime where
  /-- Seconds since 1970. -/
  seconds : Int64
  /-- Nanoseconds of the second. -/
  nanos : UInt32
  deriving Repr, DecidableEq

/-- The status of a file. -/
structure Status where
  mode : UInt32
  uid : Nat
  gid : Nat
  /-- When the file was last read. -/
  access : FileTime
  /-- When its content last changed. -/
  modify : FileTime
  /-- When its status last changed. -/
  change : FileTime
  deriving Repr, DecidableEq

/-- Fields of a status that are given; the others stay as they are. -/
structure StatusChange where
  mode : Option UInt32
  uid : Option Nat
  gid : Option Nat
  access : Option FileTime
  modify : Option FileTime
  change : Option FileTime
  deriving Repr, DecidableEq

/-- The status with the given fields put in. -/
def StatusChange.apply (c : StatusChange) (s : Status) : Status :=
  ⟨c.mode.getD s.mode, c.uid.getD s.uid, c.gid.getD s.gid, c.access.getD s.access,
    c.modify.getD s.modify, c.change.getD s.change⟩

/-- What a host says about the status of one path text. -/
inductive Overlay where
  /-- The query of the status fails. -/
  | fails (errno : Errno)
  /-- The path has this status, whether there is a file or not. -/
  | stands (status : Status) (list : Acl.Reading)
  /-- The file of the path has its status with these fields changed. -/
  | differs (change : StatusChange) (list : Acl.Reading)
  deriving Repr, DecidableEq

namespace Status

/-- The bits of a mode that hold the file type. -/
def typeMask : UInt32 := 0o170000

def isLink (s : Status) : Bool := s.mode &&& typeMask = 0o120000

def isDirectory (s : Status) : Bool := s.mode &&& typeMask = 0o040000

/-- The mode of a node: its type and its permissions. -/
def modeOf (n : Node) : UInt32 :=
  let type : UInt32 := match n with
    | .directory _ => 0o040000
    | .file .. => 0o100000
    | .link _ => 0o120000
  type ||| n.permissions.mode

/-- The status of a node, with owners and times taken from another status. -/
def ofNode (base : Status) (n : Node) : Status := { base with mode := modeOf n }

end Status

structure Host where
  files : FileSystem
  /-- What is said about the status of single paths. -/
  overlay : Path → Option Overlay
  /-- The owners and times of every file, as far as nothing else is said about it. -/
  base : Status
  /-- The names of users and groups. -/
  names : NameService

namespace Host

/-- The status of a path. A link at its end is followed on demand. -/
def status (h : Host) (follow : Bool) (p : Path) : Except OsFault Status :=
  if p.contains 0 then .error .nulInPath
  else
    match h.overlay p with
    | some (.fails errno) => .error (.system errno)
    | some (.stands status _) => .ok status
    | some (.differs change _) =>
      (h.files.find follow p).map fun found => change.apply (Status.ofNode h.base found.2)
    | none => (h.files.find follow p).map fun found => Status.ofNode h.base found.2

/-- What reading the access control list of a path meets. -/
def aclReading (h : Host) (p : Path) : Acl.Reading :=
  match h.overlay p with
  | some (.stands _ list) => list
  | some (.differs _ list) => list
  | _ => .queryFails .noData

def isDirectory (h : Host) (p : Path) : Bool :=
  match h.status true p with
  | .ok s => s.isDirectory
  | .error _ => false

/-- Makes a directory and the ones above it that are missing; `fuel` bounds their number. -/
def makeDirectories (fuel : Nat) (h : Host) (p : Path) : Attempt :=
  if p = [] then ⟨h.files, none⟩
  else
    match h.files.mkdir p with
    | .ok fs => ⟨fs, none⟩
    | .error fault =>
      if !fault.isNotFound then
        if h.isDirectory p then ⟨h.files, none⟩ else ⟨h.files, some fault⟩
      else
        match Path.parent p, fuel with
        | none, _ | _, 0 => ⟨h.files, some .noParentLeft⟩
        | some up, fuel + 1 =>
          (makeDirectories fuel h up).andThen fun fs =>
            match fs.mkdir p with
            | .ok fs' => ⟨fs', none⟩
            | .error fault =>
              if ({ h with files := fs } : Host).isDirectory p then ⟨fs, none⟩
              else ⟨fs, some fault⟩

/-- Makes a directory and every directory above it that is missing. -/
def mkdirAll (h : Host) (p : Path) : Attempt := makeDirectories p.length h p

/-- Removes the directory of a path with everything in it; a link only itself. -/
def removeAll (h : Host) (p : Path) : Attempt :=
  match h.status false p with
  | .error fault => ⟨h.files, some fault⟩
  | .ok s =>
    if s.isLink then Attempt.ofCall h.files (h.files.unlink p) else h.files.removeTree p

end Host

end Conformance
