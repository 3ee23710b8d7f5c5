import Conformance.Capture
import Conformance.Json.Printer
import Conformance.Parcel

/-!
# The poller of the file watch

A poller looks at every watched path again and again, and reports those whose state differs from
what it reported last. What one pass reports is one group of parcels, in the order in which the
watches were added, and the numbers of groups and parcels go on without a gap. States are compared
by the payloads that report them.

The host may change while a pass goes on, so every watch is looked at on a host of its own.
-/

namespace Conformance.FileWatch

/-- The name of the plugin, which sends every parcel. -/
def name : String := "file-watch"

/-! ## The state of one path -/

/-- The payload that reports the outcome of a capture. A snapshot whose path is no text cannot be
reported, and a capture that breaks off has no outcome. -/
def payload? (path : Path) (outcome : Except CaptureStop Snapshot) : Option Bytes :=
  let state : Option (List (String × Json)) := match outcome with
    | .ok snapshot => snapshot.json?.map fun form => [("exists", .bool true), ("snapshot", form)]
    | .error (.fault fault) =>
      if fault.isNotFound then some [("exists", .bool false)]
      else some [("error", .str fault.message)]
    | .error (.overflow _) => none
  state.map fun members =>
    Utf8.encode (Json.object (("path", .str (Path.text path)) :: members)).text

structure Watch where
  path : Path
  kinds : List AttributeKind
  /-- The payload that was reported last. -/
  last : Option Bytes
  deriving Repr, DecidableEq

namespace Watch

/-- The payload that reports the state of the path. -/
def payload? (w : Watch) (h : Host) : Option Bytes :=
  FileWatch.payload? w.path (h.capture w.path w.kinds)

/-- A watch after its state was reported with a payload, and the payload if it is a new one. -/
def report (w : Watch) (payload : Bytes) : Watch × Option Bytes :=
  if w.last = some payload then (w, none) else ({ w with last := some payload }, some payload)

end Watch

/-! ## Passes -/

/-- A poller. -/
structure Poller where
  /-- The watches, in the order in which they were added. -/
  watches : List Watch
  /-- The number of passes that reported something; the last of them is the group with this
  number. -/
  round : UInt64
  /-- The number of parcels so far. -/
  minor : UInt64
  deriving Repr, DecidableEq

/-- Looks at watches in order, at each on the host of its number: the watches after that, and the
new payloads. If a state cannot be reported, or its capture breaks off, so does the pass, and
nothing is reported although the watches before remember their states. -/
def look (hosts : Nat → Host) : Nat → List Watch → List Watch × Option (List Bytes)
  | _, [] => ([], some [])
  | n, w :: r =>
    match w.payload? (hosts n) with
    | none => (w :: r, none)
    | some payload =>
      let (seen, changed) := w.report payload
      let (rest, payloads) := look hosts (n + 1) r
      (seen :: rest, payloads.map (changed.toList ++ ·))

/-- A parcel of a group, the last of the group or a part of it. -/
def parcel (now : Instant) (round minor : UInt64) (disposition : Disposition) (payload : Bytes) :
    Parcel where
  time := now
  sender := name
  recipient := "host"
  type := "file-state"
  compression := .none
  sequence := ⟨1, minor⟩
  group := some ⟨round, disposition⟩
  payload

/-- The parcels of a group. `minor` is the number of parcels before them. -/
def parcels (now : Instant) (round : UInt64) : UInt64 → List Bytes → List Parcel
  | _, [] => []
  | minor, [payload] => [parcel now round (minor + 1) .last payload]
  | minor, payload :: next :: r =>
    parcel now round (minor + 1) .part payload :: parcels now round (minor + 1) (next :: r)

namespace Poller

def empty : Poller := ⟨[], 0, 0⟩

/-- Adds a watch whose state was never reported. -/
def watch (p : Poller) (path : Path) (kinds : List AttributeKind) : Poller :=
  { p with watches := p.watches ++ [⟨path, kinds, none⟩] }

/-- One pass, with the watch of a number on the host of that number: the parcels it reports with
the time of the pass, or nothing at all if it breaks off. -/
def poll (p : Poller) (now : Instant) (hosts : Nat → Host) : Poller × Option (List Parcel) :=
  match look hosts 0 p.watches with
  | (watches, none) => ({ p with watches }, none)
  | (watches, some []) => ({ p with watches }, some [])
  | (watches, some payloads) =>
    (⟨watches, p.round + 1, p.minor + UInt64.ofNat payloads.length⟩,
      some (parcels now (p.round + 1) p.minor payloads))

end Poller

end Conformance.FileWatch
