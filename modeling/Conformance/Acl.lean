import Conformance.NameService
import Conformance.Text.Flags

/-!
# Access control lists

The entries of a file's access control list, in the order in which they are stored, and the short
list that the permission bits alone amount to.
-/

namespace Conformance

inductive AclTag where
  | user
  | group
  | mask
  | userObj
  | groupObj
  | other
  deriving Repr, DecidableEq

namespace AclTag

/-- Only entries about a named user or group name somebody. -/
def isQualified : AclTag → Bool
  | .user | .group => true
  | _ => false

def names : List (String × AclTag) := [
  ("user", .user), ("group", .group), ("mask", .mask), ("user-obj", .userObj),
  ("group-obj", .groupObj), ("other", .other)]

def name : AclTag → String
  | .user => "user"
  | .group => "group"
  | .mask => "mask"
  | .userObj => "user-obj"
  | .groupObj => "group-obj"
  | .other => "other"

/-- The word for a tag in the short form of an entry, where the owners are unnamed users. -/
def word : AclTag → String
  | .user | .userObj => "user"
  | .group | .groupObj => "group"
  | .mask => "mask"
  | .other => "other"

/-- The tag's own name, one word with capitals. -/
def title : AclTag → String
  | .user => "User"
  | .group => "Group"
  | .mask => "Mask"
  | .userObj => "UserObj"
  | .groupObj => "GroupObj"
  | .other => "Other"

end AclTag

/-- The permissions of an entry. A set read from a document may hold further bits. -/
structure AclPerms where
  /-- The bits of the set: 4 to read, 2 to write, 1 to execute. -/
  bits : UInt8
  deriving Repr, DecidableEq

namespace AclPerms

/-- The three lowest bits of a number as a set. -/
def ofLowBits (n : Nat) : AclPerms := ⟨UInt8.ofNat (n % 8)⟩

def names : Flags.Table := [("READ", 4), ("WRITE", 2), ("EXECUTE", 1)]

/-- The set as names joined by bars. -/
def flagText (p : AclPerms) : String := Flags.render names p.bits.toNat

/-- The set that names joined by bars, or numbers, stand for. -/
def ofFlagText? (text : String) : Option AclPerms :=
  (Flags.read? names 0x100 text).map fun n => ⟨UInt8.ofNat n⟩

def has (p : AclPerms) (mask : UInt8) : Bool := p.bits &&& mask = mask

def symbolicChars (p : AclPerms) : List Char :=
  [if p.has 4 then 'r' else '-', if p.has 2 then 'w' else '-', if p.has 1 then 'x' else '-']

/-- The set as three characters, such as `r-x`. -/
def symbolic (p : AclPerms) : String := String.ofList p.symbolicChars

def bit? (mask : UInt8) (letter c : Char) : Option UInt8 :=
  if c = letter then some mask else if c = '-' then some 0 else none

def ofSymbolicChars? : List Char → Option AclPerms
  | [a, b, c] =>
    match bit? 4 'r' a, bit? 2 'w' b, bit? 1 'x' c with
    | some x, some y, some z => some ⟨x ||| y ||| z⟩
    | _, _, _ => none
  | _ => none

def ofSymbolic? (text : String) : Option AclPerms := ofSymbolicChars? text.toList

end AclPerms

/-- A user or group that an entry names. -/
structure Qualifier where
  id : Nat
  name : String
  deriving Repr, DecidableEq

structure AclEntry where
  tag : AclTag
  qualifier : Option Qualifier
  perms : AclPerms
  deriving Repr, DecidableEq

/-- The short form of an entry, such as `user:alice:r--`. -/
def AclEntry.text (e : AclEntry) : String :=
  e.tag.word ++ ":" ++ (e.qualifier.map (·.name)).getD "" ++ ":" ++ e.perms.symbolic

namespace Acl

/-- The list that the permission bits of a mode amount to. -/
def minimal (mode : UInt32) : List AclEntry :=
  let n := mode.toNat
  [⟨.userObj, none, .ofLowBits (n / 64)⟩, ⟨.groupObj, none, .ofLowBits (n / 8)⟩,
   ⟨.other, none, .ofLowBits n⟩]

end Acl

end Conformance
