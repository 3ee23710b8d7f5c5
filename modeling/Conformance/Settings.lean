import Conformance.Json.Parser
import Conformance.Json.Printer
import Conformance.Parcel.Raw

/-!
# Host settings

Settings are texts by name that every plugin receives when it starts. To a native plugin they go as
a JSON object.
-/

namespace Conformance

/-- Texts by name, the names in ascending order. -/
abbrev Settings := List (String × String)

namespace Settings

def insert (key value : String) : Settings → Settings
  | [] => [(key, value)]
  | (k, v) :: r =>
    if key = k then (key, value) :: r
    else if key < k then (key, value) :: (k, v) :: r
    else (k, v) :: insert key value r

/-- The settings of a list in which the last text of a name counts. -/
def ofList (entries : List (String × String)) : Settings :=
  entries.foldl (fun acc e => insert e.1 e.2 acc) []

def json (s : Settings) : Json := Json.object (s.map fun e => (e.1, .str e.2))

/-- The settings as the text a native plugin receives. -/
def text (s : Settings) : String := s.json.text

/-- The settings as they are handed to a native plugin, unless their text cannot be handed over. -/
def raw (s : Settings) : Except BoundaryFault RawText := RawText.write "config" s.text

/-- Texts by name, if every member is a text. -/
def ofMembers? : List (String × Json) → Option (List (String × String))
  | [] => some []
  | (k, .str v) :: r => (ofMembers? r).map ((k, v) :: ·)
  | _ => none

/-- Settings of a JSON object whose members are texts. -/
def ofJson? (v : Json) : Option Settings := do
  return ofList (← ofMembers? (← v.obj?))

/-- The settings in a text at the boundary; whatever is no such object holds none. -/
def ofRaw (t : RawText) : Settings :=
  match RawText.read "config" t with
  | .error _ => []
  | .ok s => ((Json.parse? s).bind ofJson?).getD []

/-- The entries of a mapping of texts, up to the first that is none. -/
def textEntries : List (Datum × Datum) → Except Fault (List (String × String))
  | [] => .ok []
  | (k, v) :: r =>
    match Reader.text k, Reader.text v with
    | .ok name, .ok text => (textEntries r).map ((name, text) :: ·)
    | .error fault, _ | _, .error fault => .error fault

def reader : Reader Settings := fun d =>
  match d with
  | .map es => (textEntries es).map ofList
  | d => Reader.wrong d "a map"

end Settings

end Conformance
