import Conformance.Yaml.Token

/-!
# Nodes of a YAML document

A document is one node: a scalar, a sequence, a mapping, or an alias for a node with an anchor. A text
holds one document at most. Where a node is missing but a place for it is there, it is an empty plain
scalar.
-/

namespace Conformance.Yaml

/-- The anchor and the tag of a node. -/
structure Properties where
  /-- The name by which aliases refer to the node. -/
  anchor : Option String
  tag : Option String
  deriving Repr, DecidableEq

inductive Node where
  | alias (name : String)
  | scalar (properties : Properties) (style : ScalarStyle) (text : String)
  | sequence (properties : Properties) (items : List Node)
  | mapping (properties : Properties) (entries : List (Node × Node))
  deriving Inhabited

namespace Node

/-- No anchor and no tag. -/
def bare : Properties := ⟨none, none⟩

/-- The node where none is written. -/
def empty : Node := .scalar bare .plain ""

/-- What handles of tags stand for. -/
abbrev Handles := List (String × String)

/-- The handles that every document knows. -/
def defaultHandles : Handles := [("!", "!"), ("!!", "tag:yaml.org,2002:")]

/-- The full tag of a handle and a suffix. A tag without a handle is full already. -/
def fullTag? (handles : Handles) (handle suffix : String) : Option String :=
  if handle = "" then some suffix else (handles.lookup handle).map (· ++ suffix)

/-- Reads an anchor and a tag in either order. -/
def properties? (handles : Handles) : List Token → Option (Properties × List Token)
  | .anchor a :: .tag h s :: r => (fullTag? handles h s).map fun t => (⟨some a, some t⟩, r)
  | .tag h s :: .anchor a :: r => (fullTag? handles h s).map fun t => (⟨some a, some t⟩, r)
  | .anchor a :: r => some (⟨some a, none⟩, r)
  | .tag h s :: r => (fullTag? handles h s).map fun t => (⟨none, some t⟩, r)
  | r => some (bare, r)

/-- The tag of a scalar: one that is only an exclamation mark is none. -/
def scalarProperties (p : Properties) : Properties :=
  if p.tag = some "!" then { p with tag := none } else p

def isEntry : Token → Bool
  | .blockEntry => true
  | _ => false

/-- A token before which an entry of a block mapping may be empty. -/
def endsEntry : Token → Bool
  | .key | .value | .blockEnd => true
  | _ => false

/-- A token before which an entry of a flow sequence may be empty. -/
def endsFlowItem : Token → Bool
  | .flowEntry | .flowSequenceEnd => true
  | _ => false

/-- A token before which an entry of a flow mapping may be empty. -/
def endsFlowEntry : Token → Bool
  | .flowEntry | .flowMappingEnd => true
  | _ => false

/-- What was read, and the tokens after it. -/
abbrev Step (α : Type) := List Token → Option (α × List Token)

/-- Reads a node, unless a token follows before which it may be empty. -/
def orEmpty (stop : Token → Bool) (step : Step Node) : Step Node := fun ts =>
  match ts with
  | t :: _ => if stop t then some (empty, ts) else step ts
  | [] => none

mutual

/-- Reads a node. `block` says whether block collections may start here, and `indentless` whether a
sequence may do so without indentation. -/
def node (handles : Handles) (block indentless : Bool) : Nat → Step Node
  | 0, _ => none
  | _, .alias name :: r => some (.alias name, r)
  | fuel + 1, ts => do
    let (p, ts) ← properties? handles ts
    match ts with
    | .scalar style text :: r => some (.scalar (scalarProperties p) style text, r)
    | .flowSequenceStart :: r =>
      (flowItems handles true fuel r).map fun (items, r) => (.sequence p items, r)
    | .flowMappingStart :: r =>
      (flowEntries handles true fuel r).map fun (entries, r) => (.mapping p entries, r)
    | t :: r =>
      if indentless && isEntry t then
        (indentlessItems handles fuel ts).map fun (items, r) => (.sequence p items, r)
      else if block && t = .blockSequenceStart then
        (blockItems handles fuel r).map fun (items, r) => (.sequence p items, r)
      else if block && t = .blockMappingStart then
        (blockEntries handles fuel r).map fun (entries, r) => (.mapping p entries, r)
      else if p.anchor.isSome || p.tag.isSome then some (.scalar p .plain "", ts)
      else none
    | [] => none

/-- Reads the entries of a block sequence up to its end. -/
def blockItems (handles : Handles) : Nat → Step (List Node)
  | 0, _ => none
  | fuel + 1, .blockEntry :: r => do
    let stop (t : Token) : Bool := isEntry t || t = .blockEnd
    let (item, r) ← orEmpty stop (node handles true false fuel) r
    let (items, r) ← blockItems handles fuel r
    return (item :: items, r)
  | _, .blockEnd :: r => some ([], r)
  | _, _ => none

/-- Reads the entries of a sequence that is not indented. -/
def indentlessItems (handles : Handles) : Nat → Step (List Node)
  | 0, _ => none
  | fuel + 1, .blockEntry :: r => do
    let stop (t : Token) : Bool := isEntry t || endsEntry t
    let (item, r) ← orEmpty stop (node handles true false fuel) r
    let (items, r) ← indentlessItems handles fuel r
    return (item :: items, r)
  | _, ts => some ([], ts)

/-- Reads the entries of a block mapping up to its end. -/
def blockEntries (handles : Handles) : Nat → Step (List (Node × Node))
  | 0, _ => none
  | fuel + 1, .key :: r => do
    let (key, r) ← orEmpty endsEntry (node handles true true fuel) r
    let (value, r) ← match r with
      | .value :: r => orEmpty endsEntry (node handles true true fuel) r
      | r => some (empty, r)
    let (entries, r) ← blockEntries handles fuel r
    return ((key, value) :: entries, r)
  | _, .blockEnd :: r => some ([], r)
  | _, _ => none

/-- Reads the entries of a flow sequence up to its end. A key in it is a mapping of one entry. -/
def flowItems (handles : Handles) (isFirst : Bool) : Nat → Step (List Node)
  | 0, _ => none
  | _, .flowSequenceEnd :: r => some ([], r)
  | fuel + 1, ts => do
    let ts ← match isFirst, ts with
      | true, ts => some ts
      | false, .flowEntry :: r => some r
      | false, _ => none
    match ts with
    | .flowSequenceEnd :: r => some ([], r)
    | .key :: r =>
      let (key, r) ← match r with
        | [] => none
        | t :: r' =>
          if t = .value || endsFlowItem t then some (empty, r')
          else node handles false false fuel r
      let (value, r) ← match r with
        | .value :: r => orEmpty endsFlowItem (node handles false false fuel) r
        | r => some (empty, r)
      let (items, r) ← flowItems handles false fuel r
      return (.mapping bare [(key, value)] :: items, r)
    | ts =>
      let (item, r) ← node handles false false fuel ts
      let (items, r) ← flowItems handles false fuel r
      return (item :: items, r)

/-- Reads the entries of a flow mapping up to its end. -/
def flowEntries (handles : Handles) (isFirst : Bool) : Nat → Step (List (Node × Node))
  | 0, _ => none
  | _, .flowMappingEnd :: r => some ([], r)
  | fuel + 1, ts => do
    let ts ← match isFirst, ts with
      | true, ts => some ts
      | false, .flowEntry :: r => some r
      | false, _ => none
    match ts with
    | .flowMappingEnd :: r => some ([], r)
    | .key :: r =>
      let stop (t : Token) : Bool := t = .value || endsFlowEntry t
      let (key, r) ← orEmpty stop (node handles false false fuel) r
      let (value, r) ← match r with
        | .value :: r => orEmpty endsFlowEntry (node handles false false fuel) r
        | r => some (empty, r)
      let (entries, r) ← flowEntries handles false fuel r
      return ((key, value) :: entries, r)
    | ts =>
      let (key, r) ← node handles false false fuel ts
      let (entries, r) ← flowEntries handles false fuel r
      return ((key, empty) :: entries, r)

end

/-! ## Documents -/

/-- Reads the directives of a document: at most one version, which has to be 1.1 or 1.2, and handles
of tags, each at most once. -/
def directives? (version : Bool) (handles : Handles) : List Token → Option (Handles × List Token)
  | .version major minor :: r =>
    if version || major ≠ 1 || (minor ≠ 1 && minor ≠ 2) then none
    else directives? true handles r
  | .tagDirective handle start :: r =>
    if (handles.lookup handle).isSome then none
    else directives? version ((handle, start) :: handles) r
  | ts => some (handles ++ defaultHandles, ts)

def isBoundary : Token → Bool
  | .version .. | .tagDirective .. | .documentStart | .documentEnd | .streamEnd => true
  | _ => false

/-- Whether nothing but ends of documents follows. -/
def isOver : List Token → Bool
  | [.streamEnd] => true
  | .documentEnd :: r => isOver r
  | _ => false

/-- The node of the document that tokens hold, `none` inside for a stream without a document; `none`
for tokens that are not one document. -/
def ofTokens? (ts : List Token) : Option (Option Node) := do
  let fuel := 4 * ts.length + 4
  match ts with
  | [.streamEnd] => return none
  | t :: _ =>
    let isExplicit := match t with
      | .version .. | .tagDirective .. | .documentStart => true
      | _ => false
    let (root, r) ←
      if isExplicit then do
        let (handles, r) ← directives? false [] ts
        match r with
        | .documentStart :: r => orEmpty isBoundary (node handles true false fuel) r
        | _ => none
      else node defaultHandles true false fuel ts
    if isOver r then return some root else none
  | [] => none

end Node

end Conformance.Yaml
