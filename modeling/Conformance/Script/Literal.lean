import Conformance.Expectation.Attributes

/-!
# Literals of scripts

Permissions, owners and paths as a script may write them. A mode that is a number is recognised so
that it can be refused: `0644`, `0o644` and `420` are different texts of one number, and which of
them was written is lost.
-/

namespace Conformance

inductive ModeLiteral where
  | number (n : Int)
  | text (s : String)
  deriving Repr, DecidableEq

namespace ModeLiteral

/-- A number of 64 bits with a sign, or a text. -/
def ofDatum? (d : Datum) : Option ModeLiteral :=
  match Reader.signed64 d, d with
  | .ok n, _ => some (.number n)
  | _, .text s => some (.text s)
  | _, _ => none

def reader : Reader ModeLiteral := Reader.byShape "ModeLiteral" [ofDatum?]

end ModeLiteral

/-- Permissions as they are written: one by one, or as a mode. -/
inductive PermissionLiteral where
  | flags (names : List String)
  | mode (literal : ModeLiteral)
  deriving Repr, DecidableEq

namespace PermissionLiteral

/-- A list of texts. -/
def ofList? : Datum → Option PermissionLiteral
  | .list xs => (Reader.each Reader.text xs).toOption.map .flags
  | _ => none

def reader : Reader PermissionLiteral :=
  Reader.byShape "PermissionLiteral" [ofList?, fun d => (ModeLiteral.ofDatum? d).map .mode]

end PermissionLiteral

/-- An owner as it is written. -/
structure IdentityLiteral where
  id : Option Nat
  name : Option String
  deriving Repr, DecidableEq

namespace IdentityLiteral

def ofId? (d : Datum) : Option IdentityLiteral :=
  (Reader.word32 d).toOption.map fun id => ⟨some id, none⟩

def ofName? : Datum → Option IdentityLiteral
  | .text s => some ⟨none, some s⟩
  | _ => none

/-- The name of a key; the two fields may also be called by their numbers. -/
def key? : Datum → Option String
  | .text s => some s
  | .number (.int i) =>
    if i = 0 then some "id" else if i = 1 then some "name" else if 0 ≤ i then some "" else none
  | _ => none

/-- Every entry with the name of its key. -/
def keyed? : List (Datum × Datum) → Option (List (Datum × Datum))
  | [] => some []
  | (k, v) :: r =>
    match key? k, keyed? r with
    | some name, some rest => some ((.text name, v) :: rest)
    | _, _ => none

/-- An id and a name, either of which may be missing, by name or by position. -/
def ofBoth? (d : Datum) : Option IdentityLiteral :=
  let number := Reader.optional Reader.word32
  let text := Reader.optional Reader.text
  let named (es : List (Datum × Datum)) : Option IdentityLiteral := do
    let es ← (Reader.entries .json "an owner" false
      [.of "id" number, .of "name" text] (.map (← keyed? es))).toOption
    let id ← (es.optional "id" Reader.word32).toOption
    let name ← (es.optional "name" Reader.text).toOption
    return ⟨id, name⟩
  match d with
  | .map es => named es
  | .list [id, name] => named [(.text "id", id), (.text "name", name)]
  | _ => none

def reader : Reader IdentityLiteral := Reader.byShape "IdentityLiteral" [ofId?, ofName?, ofBoth?]

end IdentityLiteral

end Conformance
