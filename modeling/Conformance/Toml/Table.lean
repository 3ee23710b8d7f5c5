import Conformance.Datum

/-!
# Values and tables of TOML

A table says how it came to be, for that decides what may still be added to it: a table with a
header of its own is closed to dotted keys and to a second header, one that only a longer header
implied may still get a header, one that dotted keys made may get more of them, and one that was
written inline is complete.
-/

namespace Conformance.Toml

/-- How a table came to be. -/
inductive Origin where
  /-- It has a header of its own. -/
  | header
  /-- The header of a table inside it implies it. -/
  | implied
  /-- A dotted key makes it. -/
  | dotted
  /-- It is written as a value. -/
  | inline
  deriving Repr, DecidableEq

inductive Value where
  | text (s : String)
  | int (n : Int)
  | float (x : Binary64)
  | bool (b : Bool)
  /-- A date, a time, or both. -/
  | moment (text : String)
  | list (items : List Value)
  | table (origin : Origin) (entries : List (String × Value))
  /-- Tables under repeated headers, in order. -/
  | tables (elements : List (List (String × Value)))
  deriving Repr, Inhabited

/-- The entries of a table in the order of the document. -/
abbrev Entries := List (String × Value)

/-- A value under a key, in place of what was there or at the end. -/
def Entries.put (key : String) (v : Value) : Entries → Entries
  | [] => [(key, v)]
  | (k, w) :: r => if k = key then (key, v) :: r else (k, w) :: Entries.put key v r

/-- The last of several tables, and the ones before it. -/
def splitTables (elements : List Entries) : List Entries × Entries :=
  (elements.dropLast, elements.getLast?.getD [])

/-! ## Adding to tables -/

/-- Changes the table that a path leads to, from a table with these entries on. Tables that are not
there yet are made, by dotted keys or by a header. Among repeated tables the path goes on in the
last. `change` sees how the table came to be; `none` says that the path leads nowhere. -/
def alter (dotted : Bool) (change : Origin → Entries → Option Entries) (origin : Origin)
    (entries : Entries) : List String → Option Entries
  | [] => change origin entries
  | key :: path =>
    match entries.lookup key with
    | none =>
      let made : Origin := if dotted then .dotted else .implied
      (alter dotted change made [] path).map fun inner => entries.put key (.table made inner)
    | some (.table .inline _) => none
    | some (.table .header inner) =>
      if dotted then none
      else
        (alter dotted change .header inner path).map fun inner =>
          entries.put key (.table .header inner)
    | some (.table made inner) =>
      (alter dotted change made inner path).map fun inner => entries.put key (.table made inner)
    | some (.tables elements) =>
      let (before, last) := splitTables elements
      (alter dotted change .header last path).map fun inner =>
        entries.put key (.tables (before ++ [inner]))
    | some _ => none

/-- Adds a value under a key that is still free. -/
def addNew (key : String) (v : Value) (entries : Entries) : Option Entries :=
  match entries.lookup key with
  | none => some (entries ++ [(key, v)])
  | some _ => none

/-- Adds a value under a dotted key to a table: all but the last part of the key name tables that
dotted keys make. -/
def addDotted (path : List String) (key : String) (v : Value) (entries : Entries) :
    Option Entries :=
  match path with
  | [] => addNew key v entries
  | path =>
    alter true (fun origin es => if origin = .dotted then addNew key v es else none) .header entries
      path

/-- Starts the table of a header. -/
def startTable (path : List String) (key : String) (root : Entries) : Option Entries :=
  alter false (fun _ es =>
    match es.lookup key with
    | none => some (es ++ [(key, .table .header [])])
    | some (.table .implied inner) => some (Entries.put key (.table .header inner) es)
    | some _ => none) .header root path

/-- Starts the next one of the tables of a repeated header. -/
def startElement (path : List String) (key : String) (root : Entries) : Option Entries :=
  alter false (fun _ es =>
    match es.lookup key with
    | none => some (es ++ [(key, .tables [[]])])
    | some (.tables elements) => some (Entries.put key (.tables (elements ++ [[]])) es)
    | some _ => none) .header root path

/-- The table with the values of an inline table, if their keys go together. -/
def inlineTable (pairs : List (List String × String × Value)) : Option Value :=
  (pairs.foldlM (fun es p => addDotted p.1 p.2.1 p.2.2 es) []).map (.table .inline)

/-! ## As documents -/

/-- The key under which a reader of mappings finds a date or a time. -/
def momentKey : String := "$__toml_private_datetime"

mutual

def Value.datum : Value → Datum
  | .text s => .text s
  | .int n => .number (.int n)
  | .float x => .number (.float x)
  | .bool b => .bool b
  | .moment text => .map [(.text momentKey, .text text)]
  | .list items => .list (datums items)
  | .table _ entries => .map (entryDatums entries)
  | .tables elements => .list (elementDatums elements)

def datums : List Value → List Datum
  | [] => []
  | v :: r => v.datum :: datums r

def entryDatums : List (String × Value) → List (Datum × Datum)
  | [] => []
  | (k, v) :: r => (.text k, v.datum) :: entryDatums r

/-- Repeated tables as a list of mappings. -/
def elementDatums : List (List (String × Value)) → List Datum
  | [] => []
  | es :: r => .map (entryDatums es) :: elementDatums r

end

end Conformance.Toml
