import Conformance.Attribute

/-!
# Expected attributes

What a script says about the attributes of a file: checks, one for each kind it names, sorted in the
order of the kinds. A check of an owner or of an entry of an access control list compares only what
it gives of the id and the name.
-/

namespace Conformance

/-- What an entry of an access control list should be. -/
structure AclEntryCheck where
  tag : AclTag
  id : Option Nat
  name : Option String
  perms : AclPerms
  deriving Repr, DecidableEq

namespace AclEntryCheck

/-- Whether a qualifier has the id and the name that were asked for. -/
def qualifierAgrees (c : AclEntryCheck) : Option Qualifier → Bool
  | some q => c.id.all (· = q.id) && c.name.all (· = q.name)
  | none => c.id.isNone && c.name.isNone

def accepts (c : AclEntryCheck) (e : AclEntry) : Bool :=
  c.tag = e.tag && c.perms = e.perms && c.qualifierAgrees e.qualifier

/-- Whom the check names: by name if it has one, else by id. -/
def qualifierText (c : AclEntryCheck) : String :=
  match c.name, c.id with
  | some name, _ => name
  | none, some id => toString id
  | none, none => ""

def text (c : AclEntryCheck) : String :=
  c.tag.title ++ ":" ++ c.qualifierText ++ ":" ++ c.perms.symbolic

/-- Splits at the first two colons; there have to be that many. -/
def split? (cs : List Char) : Option (List Char × List Char × List Char) :=
  match cs.span (· ≠ ':') with
  | (_, []) => none
  | (tag, _ :: r) =>
    match r.span (· ≠ ':') with
    | (_, []) => none
    | (qualifier, _ :: perms) => some (tag, qualifier, perms)

/-- The tag of a word: the owners are users and groups without a name, and only users and groups
have one. -/
def tag? (word : String) (named : Bool) : Option AclTag :=
  match word, named with
  | "user", false => some .userObj
  | "user", true => some .user
  | "group", false => some .groupObj
  | "group", true => some .group
  | "mask", false => some .mask
  | "other", false => some .other
  | _, _ => none

/-- Whom a text names: by id if it is a number, by name otherwise, nobody if it is empty. -/
def whom (qualifier : String) : Option Nat × Option String :=
  if qualifier.isEmpty then (none, none)
  else
    match Digits.word32? qualifier with
    | some id => (some id, none)
    | none => (none, some qualifier)

/-- The check of a text such as `user:alice:r--`, without the blanks around it. -/
def ofText? (text : String) : Option AclEntryCheck := do
  let (word, qualifier, perms) ← split? (Text.trimChars text.toList)
  let perms ← AclPerms.ofSymbolicChars? perms
  let tag ← tag? (String.ofList word) (!qualifier.isEmpty)
  let (id, name) := whom (String.ofList qualifier)
  return ⟨tag, id, name, perms⟩

end AclEntryCheck

/-! ## Checks -/

/-- What one attribute should be. -/
inductive AttributeCheck where
  | fileType (type : FileType)
  | permissions (perms : Permissions)
  | identity (kind : IdentityKind) (id : Option Nat) (name : Option String)
  | timestamp (kind : TimestampKind) (millis : Int)
  | acl (entries : List AclEntryCheck)
  deriving Repr, DecidableEq

namespace AttributeCheck

def kind : AttributeCheck → AttributeKind
  | .fileType _ => .fileType
  | .permissions _ => .permissions
  | .identity kind .. => .identity kind
  | .timestamp kind _ => .timestamp kind
  | .acl _ => .acl

/-- Whether lists are equally long and every entry is as it should be. -/
def entriesAgree : List AclEntryCheck → List AclEntry → Bool
  | [], [] => true
  | c :: cs, e :: es => c.accepts e && entriesAgree cs es
  | _, _ => false

def accepts : AttributeCheck → Attribute → Bool
  | .fileType wanted, .fileType type => wanted = type
  | .permissions wanted, .permissions perms => wanted = perms
  | .identity _ id name, .identity owner => id.all (· = owner.id) && name.all (· = owner.name)
  | .timestamp _ millis, .timestamp time => millis = time.millis
  | .acl wanted, .acl entries => entriesAgree wanted entries
  | _, _ => false

def text : AttributeCheck → String
  | .fileType type => type.name
  | .permissions perms => perms.symbolic
  | .identity _ id name => name.getD "*" ++ "(" ++ (id.map toString).getD "*" ++ ")"
  | .timestamp _ millis => toString millis ++ "ms"
  | .acl entries => Attribute.bracketed (entries.map AclEntryCheck.text)

end AttributeCheck

/-! ## Expectations of a whole file -/

/-- The first attribute that was not as it should be. -/
structure AttributeMismatch where
  kind : AttributeKind
  expected : String
  actual : String
  deriving Repr, DecidableEq

/-- The checks of one file, in the order of their kinds. -/
structure AttributeExpectations where
  checks : List AttributeCheck
  deriving Repr, DecidableEq

namespace AttributeExpectations

/-- The checks in the order of their kinds; those of one kind stay in the order they had. -/
def of (checks : List AttributeCheck) : AttributeExpectations :=
  ⟨checks.mergeSort fun a b => a.kind.rank ≤ b.kind.rank⟩

/-- The kinds that have to be captured, in order and each once. -/
def kinds (e : AttributeExpectations) : List AttributeKind :=
  AttributeKind.inOrder (e.checks.map AttributeCheck.kind)

/-- What is wrong with the attribute that a check is about, if anything. -/
def mismatch? (s : Snapshot) (c : AttributeCheck) : Option AttributeMismatch :=
  match s.get? c.kind with
  | some a => if c.accepts a then none else some ⟨c.kind, c.text, a.text⟩
  | none => some ⟨c.kind, c.text, "<not captured>"⟩

/-- The first attribute of a snapshot that is not as it should be. -/
def verify (e : AttributeExpectations) (s : Snapshot) : Option AttributeMismatch :=
  e.checks.findSome? (mismatch? s)

def describe (e : AttributeExpectations) : String :=
  " ".intercalate (e.checks.map fun c => c.kind.name ++ "=" ++ c.text)

end AttributeExpectations

end Conformance
