import Conformance.Errno
import Conformance.Text.Utf8

/-!
# Names of users and groups

A name service is asked for the name of an id with a buffer of some length; it finds a name, finds
nothing, or fails with an error number. A lookup that fails because the buffer is too short is
repeated with a buffer of twice the length, up to `maxBuffer`.
-/

namespace Conformance

inductive IdentityKind where
  | user
  | group
  deriving Repr, DecidableEq

def IdentityKind.name : IdentityKind → String
  | .user => "user"
  | .group => "group"

namespace NameService

/-- What one lookup answers. -/
inductive Answer where
  | found (name : Bytes)
  | nothing
  | failed (errno : Errno)
  deriving Repr, DecidableEq

end NameService

/-- A name service: what a lookup of an id of some kind answers, for each length of the buffer. -/
structure NameService where
  lookup : IdentityKind → Nat → Nat → NameService.Answer

namespace NameService

def firstBuffer : Nat := 1024

def maxBuffer : Nat := 0x100000

/-- Errors by which some services say that they do not know an id. -/
def meansUnknown (e : Errno) : Bool :=
  e = .noEntry || e = .noProcess || e = .badFile || e = .notPermitted

/-- Looks a name up with a buffer of the given length and, while the buffer is found too short, with
longer ones. `lookup` makes one lookup, with whatever effect that has. -/
def resolveWith {m : Type → Type} [Monad m] (lookup : IdentityKind → Nat → Nat → m Answer)
    (kind : IdentityKind) (id : Nat) (length : Nat) : m (Except Errno (Option String)) := do
  match ← lookup kind id length with
  | .found name => return .ok (some (Utf8.lossy name))
  | .nothing => return .ok none
  | .failed e =>
    if _h : e = .range ∧ 0 < length ∧ length < maxBuffer then
      resolveWith lookup kind id (length * 2)
    else if meansUnknown e then return .ok none
    else return .error e
termination_by maxBuffer - length
decreasing_by omega

/-- Looks a name up in a service, with a buffer of the given length first. -/
def resolveFrom (service : NameService) (kind : IdentityKind) (id : Nat) (length : Nat) :
    Except Errno (Option String) :=
  Id.run (resolveWith (fun kind id length => pure (service.lookup kind id length)) kind id length)

/-- The name of an id; `none` when the service does not know the id. -/
def resolve (service : NameService) (kind : IdentityKind) (id : Nat) :
    Except Errno (Option String) :=
  resolveFrom service kind id firstBuffer

end NameService

end Conformance
