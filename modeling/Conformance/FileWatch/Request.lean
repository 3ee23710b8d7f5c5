import Conformance.Attribute
import Conformance.Json.Parser
import Conformance.Parcel.Raw
import Conformance.Path

/-!
# Requests to the file watch

A request is a text in JSON, in which the last member of a key counts. It has to name a path; the
kinds of attributes and the configuration are taken as far as they can be read, and what cannot be
read is left out.
-/

namespace Conformance.FileWatch

structure Request where
  path : Path
  kinds : List AttributeKind
  /-- The milliseconds that may pass between two passes. -/
  interval : Option Nat
  deriving Repr, DecidableEq

namespace Request

/-- The kind that an element names. -/
def kind? (v : Json) : Option AttributeKind :=
  v.str?.bind fun name => (AttributeKind.ofName name).toOption

/-- The kinds that a request names, in their order. -/
def kindsOf (v : Json) : List AttributeKind :=
  AttributeKind.inOrder ((((v.get? "attributes").bind Json.arr?).getD []).filterMap kind?)

/-- The interval that the configuration of a request gives. -/
def intervalOf? (v : Json) : Option Nat :=
  ((v.get? "config").bind (·.get? "interval_ms")).bind Json.word64?

def ofJson? (v : Json) : Option Request :=
  ((v.get? "path").bind Json.str?).map fun path => ⟨Utf8.encode path, kindsOf v, intervalOf? v⟩

def ofRaw? (t : RawText) : Option Request :=
  match RawText.read "request" t with
  | .ok text => (Json.read? text).bind ofJson?
  | .error _ => none

end Request

end Conformance.FileWatch
