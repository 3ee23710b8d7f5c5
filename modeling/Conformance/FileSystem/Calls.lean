import Conformance.FileSystem.Lookup

/-!
# Calls that change a file system

Every call gives the file system after it or an error, and an error leaves everything as it was.
Work that is made of several calls can stop half way; it is an `Attempt`, which keeps what was done
up to the fault.
-/

namespace Conformance

/-- The file system after some work, and the fault that stopped the work, if any. -/
structure Attempt where
  /-- The file system as the work left it. -/
  files : FileSystem
  /-- What stopped the work. -/
  fault : Option OsFault

namespace Attempt

/-- Work that is one call. -/
def ofCall (fs : FileSystem) : Except OsFault FileSystem → Attempt
  | .ok fs' => ⟨fs', none⟩
  | .error fault => ⟨fs, some fault⟩

/-- Goes on with further work if nothing has stopped it. -/
def andThen (a : Attempt) (work : FileSystem → Attempt) : Attempt :=
  match a.fault with
  | none => work a.files
  | some _ => a

end Attempt

namespace FileSystem

/-! ## Making and removing names -/

/-- Whether the caller may add names to a directory and take names out of it. -/
def mayAlter (fs : FileSystem) (dir : Location) : Bool :=
  match fs.get? dir with
  | some node => node.writable && node.searchable
  | none => false

/-- The place of a name that is still free. `asDirectory` says whether a separator may follow. -/
def freePlace (fs : FileSystem) (asDirectory : Bool) (p : Path) : Except OsFault Place := do
  let place ← fs.locatePlace p
  if !place.isNamed then .error (.system .alreadyExists)
  else if maxName < place.name.length then .error (.system .nameTooLong)
  else if (fs.get? place.location).isSome then .error (.system .alreadyExists)
  else if place.slash && !asDirectory then .error (.system .noEntry)
  else if !fs.mayAlter place.dir then .error (.system .accessDenied)
  else .ok place

/-- The permissions of a directory made in another one, which hands its group on. -/
def inherited (fs : FileSystem) (dir : Location) : Permissions :=
  match fs.get? dir with
  | some node => ⟨newDirectory.bits ||| (node.permissions.bits &&& 0o2000)⟩
  | none => newDirectory

def mkdir (fs : FileSystem) (p : Path) : Except OsFault FileSystem := do
  let place ← fs.freePlace true p
  return fs.add place.location (.directory (fs.inherited place.dir))

def symlink (fs : FileSystem) (target p : Path) : Except OsFault FileSystem := do
  admissible target
  let place ← fs.freePlace false p
  return fs.add place.location (.link target)

/-- Removes a name that is no directory. -/
def unlink (fs : FileSystem) (p : Path) : Except OsFault FileSystem := do
  let place ← fs.locatePlace p
  if !place.isNamed then .error (.system .isDirectory)
  else if maxName < place.name.length then .error (.system .nameTooLong)
  else
    match fs.get? place.location with
    | none => .error (.system .noEntry)
    | some node =>
      if place.slash then
        .error (.system (if node.isDirectory then .isDirectory else .notDirectory))
      else if !fs.mayAlter place.dir then .error (.system .accessDenied)
      else if node.isDirectory then .error (.system .isDirectory)
      else .ok (fs.erase place.location)

/-- Removes the empty directory at a location below another one. -/
def rmdirAt (fs : FileSystem) (dir : Location) (name : Bytes) : Except OsFault FileSystem :=
  match fs.get? (dir ++ [name]) with
  | none => .error (.system .noEntry)
  | some node =>
    if !fs.mayAlter dir then .error (.system .accessDenied)
    else if !node.isDirectory then .error (.system .notDirectory)
    else if !fs.isEmptyDir (dir ++ [name]) then .error (.system .notEmpty)
    else .ok (fs.erase (dir ++ [name]))

/-- Removes an empty directory. -/
def rmdir (fs : FileSystem) (p : Path) : Except OsFault FileSystem := do
  let place ← fs.locatePlace p
  if place.name = [] then .error (.system .busy)
  else if place.name = Path.dot then .error (.system .invalid)
  else if place.name = Path.dotDot then .error (.system .notEmpty)
  else if maxName < place.name.length then .error (.system .nameTooLong)
  else fs.rmdirAt place.dir place.name

/-! ## Permissions and content -/

def chmod (fs : FileSystem) (mode : Permissions) (p : Path) : Except OsFault FileSystem := do
  let (loc, node) ← fs.find true p
  return fs.replace loc (node.withPermissions (Permissions.ofMode mode.mode))

/-- The permissions of a file that somebody has written to: it no longer runs with the rights of
its owner, nor with those of its group where the group may run it. -/
def writtenTo (mode : Permissions) : Permissions :=
  if mode.has 0o010 then ⟨mode.bits &&& 0o1777⟩ else ⟨mode.bits &&& 0o3777⟩

/-- Gives the file a path names this content; a file that is not there is made. A link is not
followed. -/
def write (fs : FileSystem) (content : Bytes) (p : Path) : Except OsFault FileSystem := do
  let place ← fs.locatePlace p
  if place.slash || !place.isNamed then .error (.system .isDirectory)
  else if maxName < place.name.length then .error (.system .nameTooLong)
  else
    match fs.get? place.location with
    | none =>
      if fs.mayAlter place.dir then .ok (fs.add place.location (.file newFile content))
      else .error (.system .accessDenied)
    | some (.link _) => .error (.system .loop)
    | some (.directory _) => .error (.system .isDirectory)
    | some (.file mode old) =>
      if (Node.file mode old).writable then
        .ok (fs.replace place.location (.file (writtenTo mode) content))
      else .error (.system .accessDenied)

/-- Adds content at the end of the file a path names. A link is not followed. -/
def extend (fs : FileSystem) (content : Bytes) (p : Path) : Except OsFault FileSystem := do
  let (loc, node) ← fs.find false p
  match node with
  | .link _ => .error (.system .loop)
  | .directory _ => .error (.system .isDirectory)
  | .file mode old =>
    if !node.writable then .error (.system .accessDenied)
    else if content = [] then .ok fs
    else .ok (fs.replace loc (.file (writtenTo mode) (old ++ content)))

def read (fs : FileSystem) (p : Path) : Except OsFault Bytes := do
  let (_, node) ← fs.find true p
  match node with
  | .file _ content =>
    if node.readable then .ok content else .error (.system .accessDenied)
  | _ =>
    if node.readable then .error (.system .isDirectory) else .error (.system .accessDenied)

/-! ## Removing a tree -/

/-- Takes names out of a directory one after the other, up to the first fault. `inner` removes the
directory at a location below. -/
def removeNames (inner : FileSystem → Location → Bytes → Attempt) (dir : Location) :
    List Bytes → FileSystem → Attempt
  | [], fs => ⟨fs, none⟩
  | name :: rest, fs =>
    let removed : Attempt :=
      match fs.get? dir, fs.get? (dir ++ [name]) with
      | some node, some (.directory _) =>
        if node.searchable then inner fs dir name else ⟨fs, some (.system .accessDenied)⟩
      | _, _ =>
        if fs.mayAlter dir then ⟨fs.erase (dir ++ [name]), none⟩
        else ⟨fs, some (.system .accessDenied)⟩
    removed.andThen (removeNames inner dir rest)

/-- Empties the directory at a location, as deep as `depth` says. The directory has to be
readable. -/
def emptyDirectory (depth : Nat) (fs : FileSystem) (loc : Location) : Attempt :=
  match fs.get? loc with
  | none => ⟨fs, some (.system .noEntry)⟩
  | some node =>
    if !node.readable then ⟨fs, some (.system .accessDenied)⟩
    else
      match depth with
      | 0 => ⟨fs, none⟩
      | depth + 1 =>
        let inner (fs : FileSystem) (dir : Location) (name : Bytes) : Attempt :=
          (emptyDirectory depth fs (dir ++ [name])).andThen fun fs' =>
            Attempt.ofCall fs' (fs'.rmdirAt dir name)
        removeNames inner loc (fs.children loc) fs

/-- Removes the directory a path names and everything in it. A link at the end is not followed,
unless a separator follows. -/
def removeTree (fs : FileSystem) (p : Path) : Attempt :=
  match fs.find false p with
  | .error fault => ⟨fs, some fault⟩
  | .ok (loc, node) =>
    if !node.isDirectory then ⟨fs, some (.system .notDirectory)⟩
    else
      (emptyDirectory fs.depth fs loc).andThen fun fs' => Attempt.ofCall fs' (fs'.rmdir p)

end FileSystem

end Conformance
