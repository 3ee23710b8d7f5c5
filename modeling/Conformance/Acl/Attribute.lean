import Conformance.Acl
import Conformance.Path

/-!
# The stored form of an access control list

A list is stored as an extended attribute: the version number 2 in four bytes, then eight bytes for
each entry: its tag, its permissions, and the id it names, each number with its low byte first. The
id is 2³² - 1 where an entry names nobody.
-/

namespace Conformance.Acl

def attributeName : String := "system.posix_acl_access"

/-- The version that starts the stored form. -/
def version : Nat := 2

/-- The id that stands for nobody. -/
def undefinedId : Nat := 0xFFFFFFFF

/-- An entry as it is stored, before names are looked up. -/
structure StoredEntry where
  tag : AclTag
  id : Option Nat
  perms : AclPerms
  deriving Repr, DecidableEq

/-! ## Numbers in bytes -/

/-- A number of two bytes, the low byte first. -/
def number16 (a b : UInt8) : Nat := a.toNat + 256 * b.toNat

/-- A number of four bytes, the low byte first. -/
def number32 (a b c d : UInt8) : Nat := number16 a b + 65536 * number16 c d

/-- The two bytes of a number, the low byte first. -/
def bytes16 (n : Nat) : Bytes := [UInt8.ofNat n, UInt8.ofNat (n / 256)]

/-- The four bytes of a number, the low byte first. -/
def bytes32 (n : Nat) : Bytes := bytes16 n ++ bytes16 (n / 65536)

/-! ## Tags -/

def tagCode : AclTag → Nat
  | .userObj => 0x01
  | .user => 0x02
  | .groupObj => 0x04
  | .group => 0x08
  | .mask => 0x10
  | .other => 0x20

def ofTagCode? (n : Nat) : Option AclTag :=
  if n = 0x01 then some .userObj
  else if n = 0x02 then some .user
  else if n = 0x04 then some .groupObj
  else if n = 0x08 then some .group
  else if n = 0x10 then some .mask
  else if n = 0x20 then some .other
  else none

/-! ## Reading -/

/-- Why bytes are no stored list. -/
inductive StoredFault where
  | length
  | version
  | tag
  deriving Repr, DecidableEq

def StoredFault.reason : StoredFault → String
  | .length => "bad length"
  | .version => "unknown version"
  | .tag => "unknown tag"

/-- Reads eight bytes for each entry. -/
def decodeEntries : Bytes → Except StoredFault (List StoredEntry)
  | t₀ :: t₁ :: p₀ :: _ :: i₀ :: i₁ :: i₂ :: i₃ :: r =>
    match ofTagCode? (number16 t₀ t₁) with
    | none => .error .tag
    | some tag =>
      let id := number32 i₀ i₁ i₂ i₃
      let entry : StoredEntry :=
        ⟨tag, if tag.isQualified && id ≠ undefinedId then some id else none, .ofLowBits p₀.toNat⟩
      (decodeEntries r).map (entry :: ·)
  | [] => .ok []
  | _ => .error .length

/-- The entries of a stored list, in the order in which they are stored. -/
def decode (raw : Bytes) : Except StoredFault (List StoredEntry) :=
  if raw.length < 4 || (raw.length - 4) % 8 ≠ 0 then .error .length
  else
    match raw with
    | a :: b :: c :: d :: r =>
      if number32 a b c d = version then decodeEntries r else .error .version
    | _ => .error .length

/-! ## Writing -/

def encodeEntry (e : AclEntry) : Bytes :=
  bytes16 (tagCode e.tag) ++ bytes16 e.perms.bits.toNat
    ++ bytes32 ((e.qualifier.map (·.id)).getD undefinedId)

def encode (entries : List AclEntry) : Bytes := bytes32 version ++ entries.flatMap encodeEntry

/-! ## Names -/

/-- Why a list cannot be shown. -/
inductive ReadFault where
  | os (fault : OsFault)
  | unresolved (kind : IdentityKind) (id : Nat)
  deriving Repr, DecidableEq

def identityKind (tag : AclTag) : IdentityKind := if tag = .user then .user else .group

def resolveEntry (names : NameService) (e : StoredEntry) : Except ReadFault AclEntry :=
  match e.id with
  | none => .ok ⟨e.tag, none, e.perms⟩
  | some id =>
    match names.resolve (identityKind e.tag) id with
    | .error errno => .error (.os (.system errno))
    | .ok none => .error (.unresolved (identityKind e.tag) id)
    | .ok (some name) => .ok ⟨e.tag, some ⟨id, name⟩, e.perms⟩

/-- Every entry with the name of its id, up to the first that cannot be resolved. -/
def resolve (names : NameService) : List StoredEntry → Except ReadFault (List AclEntry)
  | [] => .ok []
  | e :: r =>
    match resolveEntry names e with
    | .error fault => .error fault
    | .ok entry => (resolve names r).map (entry :: ·)

/-! ## Reading the attribute of a file -/

/-- What reading the attribute of a file meets: a query of its length that fails, a read that
fails, a read that finds the attribute grown since the query and starts again, or the bytes. -/
inductive Reading where
  | queryFails (errno : Errno)
  | readFails (errno : Errno)
  | grew (next : Reading)
  | done (raw : Bytes)
  deriving Repr, DecidableEq

/-- Errors that say that a file has no list of its own. -/
def meansAbsent (e : Errno) : Bool := e = .noData || e = .notSupported

/-- The stored list of a file, if it has one. -/
def Reading.stored : Reading → Except Errno (Option Bytes)
  | .queryFails e => if meansAbsent e then .ok none else .error e
  | .readFails e => if meansAbsent e then .ok none else .error e
  | .grew next => next.stored
  | .done raw => .ok (some raw)

/-- The access control list of a file. One without a list of its own has the list of its mode. -/
def read (names : NameService) (reading : Reading) (mode : UInt32) :
    Except ReadFault (List AclEntry) :=
  match reading.stored with
  | .error e => .error (.os (.system e))
  | .ok none => .ok (minimal mode)
  | .ok (some raw) =>
    match decode raw with
    | .error fault => .error (.os (.badAcl fault.reason))
    | .ok entries => resolve names entries

/-! ## Writing the attribute of a file -/

/-- A call of the system that gives an attribute of a file a value. -/
structure WriteCall where
  path : Path
  name : String
  value : Bytes
  flags : Nat
  deriving Repr, DecidableEq

/-- Gives a file a list, by a call of the system that may fail. No call is made for a path that
holds a NUL byte. -/
def apply (system : WriteCall → Except Errno Unit) (path : Path) (entries : List AclEntry) :
    Except OsFault WriteCall :=
  match path.findIdx? (· = 0) with
  | some i => .error (.nulAt i)
  | none =>
    let call : WriteCall := ⟨path, attributeName, encode entries, 0⟩
    match system call with
    | .error errno => .error (.system errno)
    | .ok () => .ok call

end Conformance.Acl
