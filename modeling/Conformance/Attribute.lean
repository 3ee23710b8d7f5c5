import Conformance.Acl
import Conformance.Permissions
import Conformance.Datum.Decode
import Conformance.Json.Printer

/-!
# File attributes

An attribute is one fact about one file: its type, its permissions, an owner, a time, or its access
control list. A snapshot holds the attributes that were asked for, one of each kind, in the order of
the kinds; a kind that is not there was not asked for.
-/

namespace Conformance

/-! ## Kinds -/

inductive FileType where
  | regular
  | directory
  | symlink
  | socket
  | fifo
  | charSpecial
  | blockSpecial
  | whiteout
  | unknown
  deriving Repr, DecidableEq

def FileType.names : List (String × FileType) := [
  ("regular", .regular), ("directory", .directory), ("symlink", .symlink), ("socket", .socket),
  ("fifo", .fifo), ("char-special", .charSpecial), ("block-special", .blockSpecial),
  ("whiteout", .whiteout), ("unknown", .unknown)]

def FileType.name : FileType → String
  | .regular => "regular"
  | .directory => "directory"
  | .symlink => "symlink"
  | .socket => "socket"
  | .fifo => "fifo"
  | .charSpecial => "char-special"
  | .blockSpecial => "block-special"
  | .whiteout => "whiteout"
  | .unknown => "unknown"

inductive TimestampKind where
  | access
  | modify
  | metadataChange
  deriving Repr, DecidableEq

def TimestampKind.names : List (String × TimestampKind) := [
  ("access", .access), ("modify", .modify), ("metadata-change", .metadataChange)]

def TimestampKind.name : TimestampKind → String
  | .access => "access"
  | .modify => "modify"
  | .metadataChange => "metadata-change"

def IdentityKind.names : List (String × IdentityKind) := [("user", .user), ("group", .group)]

inductive AttributeKind where
  | fileType
  | permissions
  | identity (kind : IdentityKind)
  | timestamp (kind : TimestampKind)
  | acl
  deriving Repr, DecidableEq

/-- A text that names no kind of attribute. -/
structure UnknownAttributeKind where
  text : String
  deriving Repr, DecidableEq

def UnknownAttributeKind.message (fault : UnknownAttributeKind) : String :=
  "unknown attribute kind " ++ Text.quoted fault.text

namespace AttributeKind

/-- All kinds, in the order in which a snapshot lists them. -/
def all : List AttributeKind := [
  .fileType, .permissions, .identity .user, .identity .group, .timestamp .access,
  .timestamp .modify, .timestamp .metadataChange, .acl]

def name : AttributeKind → String
  | .fileType => "file-type"
  | .permissions => "permissions"
  | .identity .user => "owner"
  | .identity .group => "group"
  | .timestamp .access => "atime"
  | .timestamp .modify => "mtime"
  | .timestamp .metadataChange => "ctime"
  | .acl => "acl"

/-- The place of a kind among all kinds. -/
def rank : AttributeKind → Nat
  | .fileType => 0
  | .permissions => 1
  | .identity .user => 2
  | .identity .group => 3
  | .timestamp .access => 4
  | .timestamp .modify => 5
  | .timestamp .metadataChange => 6
  | .acl => 7

def ofName (text : String) : Except UnknownAttributeKind AttributeKind :=
  match all.find? fun k => k.name = text with
  | some k => .ok k
  | none => .error ⟨text⟩

/-- Whether the kind is answered from the status of a file alone. -/
def usesStatus (k : AttributeKind) : Bool := k ≠ .acl

def reader : Reader AttributeKind := fun d =>
  match Reader.text d with
  | .error e => .error e
  | .ok s =>
    match ofName s with
    | .ok k => .ok k
    | .error fault => .error (.other fault.message)

/-- The kinds of a list in the order of all kinds, each once. -/
def inOrder (kinds : List AttributeKind) : List AttributeKind :=
  all.filter fun k => kinds.contains k

end AttributeKind

/-! ## Attributes -/

structure Identity where
  kind : IdentityKind
  id : Nat
  name : String
  deriving Repr, DecidableEq

/-- A time of a file, in milliseconds since 1970. -/
structure Timestamp where
  kind : TimestampKind
  millis : Int
  deriving Repr, DecidableEq

/-- One fact about one file. -/
inductive Attribute where
  | fileType (type : FileType)
  | permissions (perms : Permissions)
  | identity (owner : Identity)
  | timestamp (time : Timestamp)
  | acl (entries : List AclEntry)
  deriving Repr, DecidableEq

namespace Attribute

def kind : Attribute → AttributeKind
  | .fileType _ => .fileType
  | .permissions _ => .permissions
  | .identity owner => .identity owner.kind
  | .timestamp time => .timestamp time.kind
  | .acl _ => .acl

/-- Texts in brackets, separated by commas. -/
def bracketed (parts : List String) : String := "[" ++ ", ".intercalate parts ++ "]"

def text : Attribute → String
  | .fileType type => type.name
  | .permissions perms => perms.symbolic
  | .identity owner => owner.name ++ "(" ++ toString owner.id ++ ")"
  | .timestamp time => toString time.millis ++ "ms"
  | .acl entries => bracketed (entries.map AclEntry.text)

end Attribute

/-! ## JSON forms -/

def AclEntry.json (e : AclEntry) : Json :=
  let qualifier := match e.qualifier with
    | some q => [("qualifier", Json.object [("id", .nat q.id), ("name", .str q.name)])]
    | none => []
  Json.object ([("tag", Json.str e.tag.name)] ++ qualifier ++ [("perms", .str e.perms.flagText)])

/-- The JSON form of an attribute's value, without its kind. -/
def Attribute.valueJson : Attribute → Json
  | .fileType type => .str type.name
  | .permissions perms => .str perms.flagText
  | .identity owner =>
    Json.object [("kind", .str owner.kind.name), ("id", .nat owner.id), ("name", .str owner.name)]
  | .timestamp time =>
    Json.object [("kind", .str time.kind.name), ("millis", .num (.int time.millis))]
  | .acl entries => .arr (entries.map AclEntry.json)

/-- The word for an attribute in its JSON form. -/
def Attribute.word : Attribute → String
  | .fileType _ => "file-type"
  | .permissions _ => "permissions"
  | .identity _ => "identity"
  | .timestamp _ => "timestamp"
  | .acl _ => "acl"

def Attribute.json (a : Attribute) : Json :=
  Json.object [("kind", .str a.word), ("value", a.valueJson)]

/-- Reads a text with a parser of its own. -/
def Reader.parsed {α : Type} (what : String) (parse : String → Option α) : Reader α := fun d =>
  match Reader.text d with
  | .error e => .error e
  | .ok s =>
    match parse s with
    | some a => .ok a
    | none => .error (.other what)

def Permissions.reader : Reader Permissions :=
  Reader.parsed "unrecognized permission flags" Permissions.ofFlagText?

def AclPerms.reader : Reader AclPerms :=
  Reader.parsed "unrecognized entry flags" AclPerms.ofFlagText?

def Qualifier.reader (dialect : Dialect) : Reader Qualifier := fun d => do
  let es ← Reader.entries dialect "a qualifier" false
    [.of "id" Reader.word32, .of "name" Reader.text] d
  return ⟨← es.required "id" Reader.word32, ← es.required "name" Reader.text⟩

def AclEntry.reader (dialect : Dialect) : Reader AclEntry := fun d => do
  let tag := Reader.choice dialect AclTag.names
  let qualifier := Reader.optional (Qualifier.reader dialect)
  let es ← Reader.entries dialect "an entry" false
    [.of "tag" tag, .of "qualifier" qualifier, .of "perms" AclPerms.reader] d
  return ⟨← es.required "tag" tag, ← es.default "qualifier" qualifier none,
    ← es.required "perms" AclPerms.reader⟩

def Identity.reader (dialect : Dialect) : Reader Identity := fun d => do
  let kind := Reader.choice dialect IdentityKind.names
  let es ← Reader.entries dialect "an identity" false
    [.of "kind" kind, .of "id" Reader.word32, .of "name" Reader.text] d
  return ⟨← es.required "kind" kind, ← es.required "id" Reader.word32,
    ← es.required "name" Reader.text⟩

def Timestamp.reader (dialect : Dialect) : Reader Timestamp := fun d => do
  let kind := Reader.choice dialect TimestampKind.names
  let es ← Reader.entries dialect "a time" false
    [.of "kind" kind, .of "millis" Reader.signed64] d
  return ⟨← es.required "kind" kind, ← es.required "millis" Reader.signed64⟩

/-- The readers of attribute values by word. -/
def Attribute.readers (dialect : Dialect) : List (String × Reader Attribute) := [
  ("file-type", fun d => (Reader.choice dialect FileType.names d).map .fileType),
  ("permissions", fun d => (Permissions.reader d).map .permissions),
  ("identity", fun d => (Identity.reader dialect d).map .identity),
  ("timestamp", fun d => (Timestamp.reader dialect d).map .timestamp),
  ("acl", fun d => (Reader.list dialect (AclEntry.reader dialect) d).map .acl)]

def Attribute.reader (dialect : Dialect) : Reader Attribute := fun d => do
  let word := Reader.choice dialect (Attribute.readers dialect)
  let es ← Reader.entries dialect "an attribute" false
    [.of "kind" word, ⟨"value", fun _ => .ok ()⟩] d
  let value ← es.required "kind" word
  es.required "value" value

/-! ## Snapshots -/

/-- The attributes that were captured of one file. -/
structure Snapshot where
  path : Bytes
  /-- The attributes in the order of their kinds, one of each kind. -/
  attributes : List Attribute
  deriving Repr, DecidableEq

namespace Snapshot

/-- Puts an attribute at the place of its kind; one of the same kind is replaced. -/
def insert (a : Attribute) : List Attribute → List Attribute
  | [] => [a]
  | b :: r =>
    if a.kind = b.kind then a :: r
    else if a.kind.rank < b.kind.rank then a :: b :: r
    else b :: insert a r

/-- The snapshot of these attributes; of two with the same kind the later one is kept. -/
def of (path : Bytes) (attributes : List Attribute) : Snapshot :=
  ⟨path, attributes.foldl (fun acc a => insert a acc) []⟩

def get? (s : Snapshot) (kind : AttributeKind) : Option Attribute :=
  s.attributes.find? fun a => a.kind = kind

def kinds (s : Snapshot) : List AttributeKind := s.attributes.map Attribute.kind

/-- The JSON form of a snapshot. A path that is no text has none. -/
def json? (s : Snapshot) : Option Json :=
  (Utf8.decode? s.path).map fun path =>
    Json.object [("path", .str path),
      ("attributes", Json.object (s.attributes.map fun a => (a.kind.name, a.json)))]

end Snapshot

end Conformance
