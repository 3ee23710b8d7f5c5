import Conformance.Script
import Conformance.Script.Fault
import Conformance.Script.Literal

/-!
# Steps in a document

A step is a mapping with a name, a kind and the entries of its kind, of which no others are allowed.
The entries are read first, in the order of the document; then the path is checked, and then what
the values stand for. So the fault that is reported is the first one in this order.
-/

namespace Conformance

namespace StepFault

/-- The fault of a step whose entries cannot be read. -/
def ofReading {α : Type} : Except Fault α → Except StepFault α
  | .ok a => .ok a
  | .error fault => .error (.entries fault)

end StepFault

def Path.reader : Reader Path := fun d => (Reader.textAs "path string" d).map Path.ofText

/-- A path that stays in the workspace by its names. -/
def Path.contained (p : Path) : Except StepFault Path :=
  if Path.isContained p then .ok p else .error (.escapes p)

namespace Permissions

def ofModeLiteral : ModeLiteral → Except StepFault Permissions
  | .number n => .error (.bareMode n)
  | .text s =>
    match Permissions.parse s with
    | .ok p => .ok p
    | .error fault => .error (.permission fault)

/-- The union of permissions by name. -/
def ofFlagNames (p : Permissions) : List String → Except StepFault Permissions
  | [] => .ok p
  | name :: r =>
    match Permissions.ofFlagName name with
    | .ok q => ofFlagNames (p.union q) r
    | .error fault => .error (.permission fault)

def ofLiteral : PermissionLiteral → Except StepFault Permissions
  | .flags names => ofFlagNames .empty names
  | .mode literal => ofModeLiteral literal

end Permissions

namespace Step

/-! ## Steps that prepare -/

inductive Verb where
  | create
  | mkdir
  | symlink
  | chmod
  | write
  | append
  | remove
  deriving Repr, DecidableEq

def Verb.names : List (String × Verb) := [
  ("create", .create), ("mkdir", .mkdir), ("symlink", .symlink), ("chmod", .chmod),
  ("write", .write), ("append", .append), ("remove", .remove)]

structure FixtureEntries where
  path : Path
  verb : Verb
  content : Option String
  mode : Option ModeLiteral
  target : Option Path

def FixtureEntries.reader : Reader FixtureEntries := fun d => do
  let verb := Reader.choice .script Verb.names
  let es ← Reader.entries .script "a step" true
    [.of "path" Path.reader, .of "action" verb, .of "content" (Reader.optional Reader.text),
      .of "mode" (Reader.optional ModeLiteral.reader),
      .of "target" (Reader.optional Path.reader)] d
  return {
    path := ← es.required "path" Path.reader
    verb := ← es.required "action" verb
    content := ← es.optional "content" Reader.text
    mode := ← es.optional "mode" ModeLiteral.reader
    target := ← es.optional "target" Path.reader }

def needed {α : Type} (key : String) : Option α → Except StepFault α
  | some a => .ok a
  | none => .error (.required key)

/-- What a fixture does, with the permissions that its mode stands for. -/
def FixtureEntries.action (e : FixtureEntries) (mode : Option Permissions) :
    Except StepFault FixtureAction :=
  let content := (needed "content" e.content).map Utf8.encode
  match e.verb with
  | .create => .ok (.create (Utf8.encode (e.content.getD "")) mode)
  | .mkdir => .ok (.mkdir mode)
  | .symlink => ((needed "target" e.target).bind Path.contained).map .symlink
  | .chmod => (needed "mode" mode).map .chmod
  | .write => content.map .write
  | .append => content.map .append
  | .remove => .ok .remove

def modeOf : Option ModeLiteral → Except StepFault (Option Permissions)
  | none => .ok none
  | some literal => (Permissions.ofModeLiteral literal).map some

def fixture (d : Datum) : Except StepFault Directive := do
  let e ← StepFault.ofReading (FixtureEntries.reader d)
  let path ← Path.contained e.path
  let mode ← modeOf e.mode
  let action ← e.action mode
  return .fixture ⟨path, action⟩

/-- The entries of a request in a document, where `capability` is asked for by default. Without any
attributes all of them are watched. -/
def monitorReader (capability : String) : Reader MonitorRequest := fun d => do
  let attributes := Reader.list .script AttributeKind.reader
  let config := Reader.jsonObject .script
  let es ← Reader.entries .script "a step" true
    [.of "path" Path.reader, .of "capability" (Reader.optional Reader.text),
      .of "attributes" attributes, .of "config" config] d
  let kinds ← es.default "attributes" attributes []
  return {
    path := ← es.required "path" Path.reader
    capability := (← es.optional "capability" Reader.text).getD capability
    attributes := if kinds.isEmpty then AttributeKind.all else kinds
    config := ← es.default "config" config [] }

def monitor (capability : String) (d : Datum) : Except StepFault Directive := do
  let request ← StepFault.ofReading (monitorReader capability d)
  let path ← Path.contained request.path
  return .monitor { request with path }

/-! ## Steps that assert -/

def waitReader : Reader ParcelWait := fun d => do
  let expect := ParcelExpectation.reader .script
  let es ← Reader.entries .script "a step" true
    [.of "expect" expect, .of "timeout_ms" (Reader.optional Reader.word64)] d
  return ⟨← es.required "expect" expect, ← es.optional "timeout_ms" Reader.word64⟩

def await (d : Datum) : Except StepFault Directive :=
  (StepFault.ofReading (waitReader d)).map .await

def presenceReader : Reader (Path × Bool) := fun d => do
  let es ← Reader.entries .script "a step" true
    [.of "path" Path.reader, .of "exists" Reader.bool] d
  return (← es.required "path" Path.reader, ← es.required "exists" Reader.bool)

def presence (d : Datum) : Except StepFault Directive := do
  let (path, present) ← StepFault.ofReading (presenceReader d)
  return .presence (← Path.contained path) present

/-- What is expected of the attributes of a file, as it is written. -/
structure StateEntries where
  type : Option FileType
  permissions : Option PermissionLiteral
  owner : Option IdentityLiteral
  group : Option IdentityLiteral
  /-- When it was last read. -/
  access : Option Int
  /-- When its content last changed. -/
  modify : Option Int
  /-- When its status last changed. -/
  change : Option Int
  acl : Option (List String)

def StateEntries.reader : Reader StateEntries := fun d => do
  let type := Reader.choice .script FileType.names
  let texts := Reader.list .script Reader.text
  let es ← Reader.entries .script "struct StateExpect" true
    [.of "file-type" (Reader.optional type),
      .of "permissions" (Reader.optional PermissionLiteral.reader),
      .of "owner" (Reader.optional IdentityLiteral.reader),
      .of "group" (Reader.optional IdentityLiteral.reader),
      .of "atime" (Reader.optional Reader.signed64),
      .of "mtime" (Reader.optional Reader.signed64),
      .of "ctime" (Reader.optional Reader.signed64), .of "acl" (Reader.optional texts)] d
  return {
    type := ← es.optional "file-type" type
    permissions := ← es.optional "permissions" PermissionLiteral.reader
    owner := ← es.optional "owner" IdentityLiteral.reader
    group := ← es.optional "group" IdentityLiteral.reader
    access := ← es.optional "atime" Reader.signed64
    modify := ← es.optional "mtime" Reader.signed64
    change := ← es.optional "ctime" Reader.signed64
    acl := ← es.optional "acl" texts }

/-- The checks of the entries of an access control list, up to the first that cannot be read. -/
def aclChecks : List String → Except StepFault (List AclEntryCheck)
  | [] => .ok []
  | text :: r =>
    match AclEntryCheck.ofText? text with
    | none => .error (.aclEntry text)
    | some c => (aclChecks r).map (c :: ·)

def permissionCheck : Option PermissionLiteral → Except StepFault (List AttributeCheck)
  | none => .ok []
  | some literal => (Permissions.ofLiteral literal).map fun p => [.permissions p]

def aclCheck : Option (List String) → Except StepFault (List AttributeCheck)
  | none => .ok []
  | some texts => (aclChecks texts).map fun cs => [.acl cs]

def identityCheck (kind : IdentityKind) (literal : Option IdentityLiteral) :
    List AttributeCheck :=
  (literal.map fun l => AttributeCheck.identity kind l.id l.name).toList

def timestampCheck (kind : TimestampKind) (millis : Option Int) : List AttributeCheck :=
  (millis.map (AttributeCheck.timestamp kind)).toList

/-- The checks of a file, of which there has to be one at least. -/
def StateEntries.expectations (e : StateEntries) : Except StepFault AttributeExpectations := do
  let permissions ← permissionCheck e.permissions
  let acl ← aclCheck e.acl
  let checks := (e.type.map AttributeCheck.fileType).toList ++ permissions
    ++ identityCheck .user e.owner ++ identityCheck .group e.group
    ++ timestampCheck .access e.access ++ timestampCheck .modify e.modify
    ++ timestampCheck .metadataChange e.change ++ acl
  if checks.isEmpty then .error .noAttributes else .ok (.of checks)

def fileStateReader : Reader (Path × StateEntries) := fun d => do
  let es ← Reader.entries .script "a step" true
    [.of "path" Path.reader, .of "expect" StateEntries.reader] d
  return (← es.required "path" Path.reader, ← es.required "expect" StateEntries.reader)

def fileState (d : Datum) : Except StepFault Directive := do
  let (path, entries) ← StepFault.ofReading (fileStateReader d)
  let path ← Path.contained path
  return .fileState path (← entries.expectations)

/-! ## Steps -/

/-- The directive of a kind with its entries. -/
def read (capability kind : String) (d : Datum) : Except StepFault Directive :=
  match kind with
  | "before" => fixture d
  | "monitor-request" => monitor capability d
  | "after" => await d
  | "exists" => presence d
  | "file-state" => fileState d
  | other => .error (.unknownKind other)

def numbered (index : Nat) : String := "#" ++ toString (index + 1)

/-- The step at a place of the document. A fault comes with the name of the step. -/
def ofDatum (capability : String) (index : Nat) :
    Datum → Except (String × StepFault) Step
  | .map entries =>
    let (name, entries) := Datum.remove "name" entries
    match name with
    | some (.text name) => named name entries
    | none => named (numbered index) entries
    | some _ => .error (numbered index, .nameNotText)
  | _ => .error (numbered index, .notMapping)
where
  /-- The step with a name and its other entries. -/
  named (name : String) (entries : List (Datum × Datum)) : Except (String × StepFault) Step :=
    match Datum.remove "kind" entries with
    | (some (.text kind), entries) =>
      match read capability kind (.map entries) with
      | .ok d => .ok ⟨name, index, d⟩
      | .error fault => .error (name, fault)
    | _ => .error (name, .missingKind)

/-- The steps of a list whose first one has the given place, up to the first that is malformed. -/
def ofList (capability : String) : Nat → List Datum → Except (String × StepFault) (List Step)
  | _, [] => .ok []
  | index, d :: r =>
    match ofDatum capability index d with
    | .error fault => .error fault
    | .ok step => (ofList capability (index + 1) r).map (step :: ·)

end Step

end Conformance
