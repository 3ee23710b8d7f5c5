import Conformance.Text.Flags
import Conformance.Text.Quoted

/-!
# Permission bits

The twelve permission bits of a file mode, in the two notations a script may use: the one of a
directory listing (`rw-r--r--`, with `s`, `S`, `t` and `T` for the special bits) and octal digits.
A set read from a document may hold further bits; no notation shows them.
-/

namespace Conformance

/-- A set of permission bits, at the places they have in a file mode. -/
structure Permissions where
  bits : UInt16
  deriving Repr, DecidableEq

/-- A text that is no permission literal. -/
structure PermissionFault where
  literal : String
  deriving Repr, DecidableEq

def PermissionFault.message (fault : PermissionFault) : String :=
  "invalid permission literal " ++ Text.quoted fault.literal

namespace Permissions

def empty : Permissions := ⟨0⟩

/-- Everything that is in one set or the other. -/
def union (p q : Permissions) : Permissions := ⟨p.bits ||| q.bits⟩

/-- Whether all bits of the mask are in the set. -/
def has (p : Permissions) (mask : UInt16) : Bool := p.bits &&& mask = mask

/-- The permission bits of a file mode; the bits of the file type are dropped. -/
def ofMode (mode : UInt32) : Permissions := ⟨(mode &&& 0o7777).toUInt16⟩

/-- The bits of the set as a file mode. -/
def mode (p : Permissions) : UInt32 := p.bits.toUInt32

def names : Flags.Table := [
  ("OWNER_READ", 0o400), ("OWNER_WRITE", 0o200), ("OWNER_EXECUTE", 0o100),
  ("GROUP_READ", 0o040), ("GROUP_WRITE", 0o020), ("GROUP_EXECUTE", 0o010),
  ("OTHER_READ", 0o004), ("OTHER_WRITE", 0o002), ("OTHER_EXECUTE", 0o001),
  ("SET_UID", 0o4000), ("SET_GID", 0o2000), ("STICKY", 0o1000)]

/-- The set as names joined by bars. -/
def flagText (p : Permissions) : String := Flags.render names p.bits.toNat

/-- The set that names joined by bars, or numbers, stand for. -/
def ofFlagText? (text : String) : Option Permissions :=
  (Flags.read? names 0x10000 text).map fun n => ⟨UInt16.ofNat n⟩

/-- The permission of one name, as `owner-read` or `SET_UID`. -/
def ofFlagName (name : String) : Except PermissionFault Permissions :=
  let plain := (Text.trimChars name.toList).map fun c => if c = '-' then '_' else c.toUpper
  match names.lookup (String.ofList plain) with
  | some mask => .ok ⟨UInt16.ofNat mask⟩
  | none => .error ⟨name⟩

/-! ## The notation of a listing -/

/-- One class of users: the place of its three bits, and the special bit shown over the last. -/
structure UserClass where
  /-- How far the bits of the class are shifted. -/
  shift : UInt16
  /-- The special bit that shares the place of the execute bit. -/
  special : UInt16
  /-- The letter of the special bit when the execute bit is there too. -/
  letter : Char

/-- Owner, group and others, in the order in which they are written. -/
def classes : List UserClass := [⟨6, 0o4000, 's'⟩, ⟨3, 0o2000, 's'⟩, ⟨0, 0o1000, 't'⟩]

namespace UserClass

def read (k : UserClass) : UInt16 := 4 <<< k.shift
def write (k : UserClass) : UInt16 := 2 <<< k.shift
def execute (k : UserClass) : UInt16 := 1 <<< k.shift

def chars (k : UserClass) (p : Permissions) : List Char :=
  [if p.has k.read then 'r' else '-',
   if p.has k.write then 'w' else '-',
   match p.has k.execute, p.has k.special with
   | true, true => k.letter
   | false, true => k.letter.toUpper
   | true, false => 'x'
   | false, false => '-']

/-- The bits that one of the three characters stands for. -/
def bit? (mask : UInt16) (letter c : Char) : Option UInt16 :=
  if c = letter then some mask else if c = '-' then some 0 else none

/-- The bits that the third character stands for. -/
def lastBits? (k : UserClass) (c : Char) : Option UInt16 :=
  if c = 'x' then some k.execute
  else if c = '-' then some 0
  else if c = k.letter then some (k.execute ||| k.special)
  else if c = k.letter.toUpper then some k.special
  else none

def bits? (k : UserClass) (a b c : Char) : Option UInt16 :=
  match bit? k.read 'r' a, bit? k.write 'w' b, k.lastBits? c with
  | some x, some y, some z => some (x ||| y ||| z)
  | _, _, _ => none

end UserClass

/-- Reads three characters for each class, and nothing after the last. -/
def readClasses : List UserClass → List Char → Option UInt16
  | [], [] => some 0
  | k :: ks, a :: b :: c :: r =>
    match k.bits? a b c, readClasses ks r with
    | some x, some y => some (x ||| y)
    | _, _ => none
  | _, _ => none

/-- The set in the notation of a listing. -/
def symbolic (p : Permissions) : String := String.ofList (classes.flatMap fun k => k.chars p)

/-- The set that the notation of a listing stands for. -/
def ofSymbolic (text : String) : Except PermissionFault Permissions :=
  match readClasses classes text.toList with
  | some bits => .ok ⟨bits⟩
  | none => .error ⟨text⟩

/-! ## Octal digits -/

/-- The characters after any number of marks `0o`. -/
def dropMarks : List Char → List Char
  | '0' :: 'o' :: r => dropMarks r
  | cs => cs

/-- The set whose mode is written in octal, with any number of marks `0o` and a plus sign. -/
def ofOctal (text : String) : Except PermissionFault Permissions :=
  match Digits.unsigned? 8 0x100000000 (dropMarks text.toList) with
  | some n => if n ≤ 0o7777 then .ok (ofMode (UInt32.ofNat n)) else .error ⟨text⟩
  | none => .error ⟨text⟩

/-! ## Either notation -/

/-- Reads either notation, without the blanks around it: nine bytes that are not all digits are
taken for the notation of a listing, anything else for octal. -/
def parse (text : String) : Except PermissionFault Permissions :=
  let s := Text.trim text
  if s.utf8ByteSize = 9 && !s.toList.all Digits.isDecimal then ofSymbolic s else ofOctal s

end Permissions

end Conformance
