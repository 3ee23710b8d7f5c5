import Conformance.FileSystem

/-!
# From paths to locations

`walk` follows a path name by name. Every name on the way is looked up in a directory that has to
be searchable, and a link on the way is replaced by its target; a link at the end is followed only
on demand. At most `maxLinks` links are followed, so links that lead to themselves end in an error.
A path that ends with a separator, or with `.`, has to end at a directory, and then a link before
that end is on the way.
-/

namespace Conformance.FileSystem

def maxLinks : Nat := 40

def maxName : Nat := 255

def maxPath : Nat := 4095

/-- Follows steps from a location. Of `links` links each one uses one up. -/
def walk (fs : FileSystem) (follow : Bool) (links : Nat) (loc : Location) (names : List Bytes) :
    Except Errno Location :=
  match names with
  | [] => .ok loc
  | name :: rest =>
    match fs.get? loc with
    | none => .error .noEntry
    | some node =>
      if !node.isDirectory then .error .notDirectory
      else if name = [] then walk fs follow links loc rest
      else if !node.searchable then .error .accessDenied
      else if name = Path.dot then walk fs follow links loc rest
      else if name = Path.dotDot then walk fs follow links loc.dropLast rest
      else if maxName < name.length then .error .nameTooLong
      else
        match fs.get? (loc ++ [name]) with
        | none => .error .noEntry
        | some (.link target) =>
          if rest = [] && !follow then .ok (loc ++ [name])
          else
            match links with
            | 0 => .error .loop
            | links + 1 =>
              walk fs follow links (if Path.isAbsolute target then [] else loc)
                (Path.steps target ++ rest)
        | some _ => walk fs follow links (loc ++ [name]) rest
termination_by (links, names.length)

/-- The location from which a path is followed. -/
def origin (fs : FileSystem) (p : Path) : Location := if Path.isAbsolute p then [] else fs.start

/-- Whether a path can be handed to a system call at all. -/
def admissible (p : Path) : Except OsFault Unit :=
  if p.contains 0 then .error .nulInPath
  else if p = [] then .error (.system .noEntry)
  else if maxPath < p.length then .error (.system .nameTooLong)
  else .ok ()

/-- Moves the number of an error to the fault of a call. -/
def ofErrno {α : Type} : Except Errno α → Except OsFault α
  | .ok a => .ok a
  | .error e => .error (.system e)

def locate (fs : FileSystem) (follow : Bool) (p : Path) : Except OsFault Location := do
  admissible p
  ofErrno (walk fs follow maxLinks (fs.origin p) (Path.steps p))

/-- The node a path leads to, with its location. -/
def find (fs : FileSystem) (follow : Bool) (p : Path) : Except OsFault (Location × Node) := do
  let loc ← fs.locate follow p
  match fs.get? loc with
  | some node => .ok (loc, node)
  | none => .error (.system .noEntry)

/-- The location of a path with every link resolved. The length of the path itself does not
matter. -/
def canonicalize (fs : FileSystem) (p : Path) : Except OsFault Location :=
  if p.contains 0 then .error .nulInPath
  else if p = [] then .error (.system .noEntry)
  else do
    let loc ← ofErrno (walk fs true maxLinks (fs.origin p) (Path.steps p))
    match fs.get? loc with
    | some _ => .ok loc
    | none => .error (.system .noEntry)

/-! ## The place of a name -/

/-- The place a path names without looking the last name up: the directory, the name, and whether
a separator follows it. The name is empty for the root. -/
structure Place where
  dir : Location
  name : Bytes
  /-- Whether a separator follows the name. -/
  slash : Bool
  deriving Repr, DecidableEq

def Place.location (place : Place) : Location := place.dir ++ [place.name]

/-- Whether the last name is one that a file can have, and not `.` or `..`. -/
def Place.isNamed (place : Place) : Bool :=
  place.name ≠ [] && place.name ≠ Path.dot && place.name ≠ Path.dotDot

/-- The steps to the directory of the last name, the name, and whether a separator follows. -/
def splitLast (steps : List Bytes) : List Bytes × Bytes × Bool :=
  match steps.reverse with
  | [] => ([], [], false)
  | [] :: name :: before => (before.reverse, name, true)
  | name :: before => (before.reverse, name, false)

/-- The place a path names. Its directory has to be there and to be searchable. -/
def locatePlace (fs : FileSystem) (p : Path) : Except OsFault Place := do
  admissible p
  let (before, name, slash) := splitLast (Path.steps p)
  let dir ← ofErrno (walk fs true maxLinks (fs.origin p) before)
  match fs.get? dir with
  | none => .error (.system .noEntry)
  | some node =>
    if !node.isDirectory then .error (.system .notDirectory)
    else if !node.searchable then .error (.system .accessDenied)
    else .ok ⟨dir, name, slash⟩

end Conformance.FileSystem
