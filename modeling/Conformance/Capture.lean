import Conformance.Attribute
import Conformance.Host

/-!
# Capturing the attributes of a file

A snapshot of a file is taken from one status query, so its attributes never disagree with each
other; only the access control list is read by itself. A link at the end of the path is not
followed. Kinds are read in their order, and the first one that cannot be read is the fault.

The milliseconds of a time are computed in 64 bits, and every step is checked. Where one has no room
there, the capture breaks off as a panic does: it gives no snapshot and no fault.
-/

namespace Conformance

/-- Why a file has no snapshot. -/
inductive CaptureFault where
  | notFound (path : Path)
  | io (path : Path) (fault : OsFault)
  /-- Nobody has the id of an owner. -/
  | unresolved (path : Path) (kind : IdentityKind) (id : Nat)
  | unsupported (kind : AttributeKind)
  deriving Repr, DecidableEq

namespace CaptureFault

def message : CaptureFault → String
  | .notFound path => Path.text path ++ ": no such file or directory"
  | .io path fault => "metadata query failed for " ++ Path.text path ++ ": " ++ fault.message
  | .unresolved path kind id =>
    "cannot resolve " ++ kind.name ++ " id " ++ toString id ++ " for " ++ Path.text path
  | .unsupported kind => kind.name ++ " capture is not supported on this platform"

def isNotFound : CaptureFault → Bool
  | .notFound _ => true
  | _ => false

/-- The fault of a query about a path: a file that is not there is told apart from all else. -/
def ofOs (path : Path) (fault : OsFault) : CaptureFault :=
  if fault.isNotFound then .notFound path else .io path fault

end CaptureFault

/-- What ends a capture without a snapshot. -/
inductive CaptureStop where
  | fault (fault : CaptureFault)
  /-- The milliseconds of a time have no room, and the capture breaks off. -/
  | overflow (kind : TimestampKind)
  deriving Repr, DecidableEq

/-! ## Attributes of a status -/

def FileType.ofMode (mode : UInt32) : FileType :=
  let type := mode &&& Status.typeMask
  if type = 0o120000 then .symlink
  else if type = 0o040000 then .directory
  else if type = 0o100000 then .regular
  else if type = 0o140000 then .socket
  else if type = 0o010000 then .fifo
  else if type = 0o020000 then .charSpecial
  else if type = 0o060000 then .blockSpecial
  else if type = 0o160000 then .whiteout
  else .unknown

/-- A number that has room in 64 bits with a sign. -/
def int64? (n : Int) : Option Int :=
  if -0x8000000000000000 ≤ n ∧ n < 0x8000000000000000 then some n else none

/-- The milliseconds of a time since 1970, if the product and the sum have room. -/
def FileTime.millis? (t : FileTime) : Option Int :=
  (int64? (t.seconds.toInt * 1000)).bind fun millis =>
    int64? (millis + (t.nanos.toNat / 1000000 : Nat))

def Status.ownerId (s : Status) : IdentityKind → Nat
  | .user => s.uid
  | .group => s.gid

def Status.time (s : Status) : TimestampKind → FileTime
  | .access => s.access
  | .modify => s.modify
  | .metadataChange => s.change

namespace Capture

/-- The owner of a file with its name. -/
def identity (names : NameService) (path : Path) (s : Status) (kind : IdentityKind) :
    Except CaptureFault Identity :=
  match names.resolve kind (s.ownerId kind) with
  | .error errno => .error (.io path (.system errno))
  | .ok none => .error (.unresolved path kind (s.ownerId kind))
  | .ok (some name) => .ok ⟨kind, s.ownerId kind, name⟩

/-- The access control list of a file. -/
def list (h : Host) (path : Path) (s : Status) : Except CaptureFault (List AclEntry) :=
  match Acl.read h.names (h.aclReading path) s.mode with
  | .ok entries => .ok entries
  | .error (.os fault) => .error (.ofOs path fault)
  | .error (.unresolved kind id) => .error (.unresolved path kind id)

/-- The attribute of one kind. -/
def read (h : Host) (path : Path) (s : Status) :
    AttributeKind → Except CaptureStop Attribute
  | .fileType => .ok (.fileType (.ofMode s.mode))
  | .permissions => .ok (.permissions (.ofMode s.mode))
  | .identity kind => ((identity h.names path s kind).map .identity).mapError .fault
  | .timestamp kind =>
    match (s.time kind).millis? with
    | some millis => .ok (.timestamp ⟨kind, millis⟩)
    | none => .error (.overflow kind)
  | .acl => ((list h path s).map .acl).mapError .fault

/-- The attributes of several kinds, up to the first that cannot be read. -/
def readAll (h : Host) (path : Path) (s : Status) :
    List AttributeKind → Except CaptureStop (List Attribute)
  | [] => .ok []
  | kind :: r =>
    match read h path s kind with
    | .error stop => .error stop
    | .ok a => (readAll h path s r).map (a :: ·)

end Capture

/-- The snapshot of a path with the attributes of these kinds, however they are listed. -/
def Host.capture (h : Host) (path : Path) (kinds : List AttributeKind) :
    Except CaptureStop Snapshot :=
  match h.status false path with
  | .error fault => .error (.fault (.ofOs path fault))
  | .ok s => (Capture.readAll h path s (AttributeKind.inOrder kinds)).map (Snapshot.of path)

end Conformance
