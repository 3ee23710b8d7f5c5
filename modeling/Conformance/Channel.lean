import Conformance.Parcel

/-!
# The capture channel

A plugin emits parcels into a bounded queue from which the host takes them in order. Emitting never
waits: a parcel that finds the queue full is dropped. Counters tell how many parcels were accepted,
dropped, and turned away at the boundary before they were parcels. One emit is two steps, the
attempt to enqueue and the count of its outcome, and other emits may come between them.
-/

namespace Conformance

structure ChannelStats where
  /-- Parcels that were queued. -/
  accepted : Nat
  /-- Parcels that found the queue full. -/
  dropped : Nat
  /-- Data that was no parcel. -/
  malformed : Nat
  deriving Repr, DecidableEq

def ChannelStats.zero : ChannelStats := ⟨0, 0, 0⟩

def ChannelStats.json (s : ChannelStats) : Json :=
  .obj [("accepted", .nat s.accepted), ("dropped", .nat s.dropped),
    ("malformed", .nat s.malformed)]

/-- What comes of the attempt to queue a parcel. -/
inductive EmitOutcome where
  | accepted
  | dropped
  /-- Nobody receives any more. -/
  | discarded
  deriving Repr, DecidableEq

/-- The counters with one more outcome. -/
def ChannelStats.count (s : ChannelStats) : EmitOutcome → ChannelStats
  | .accepted => { s with accepted := s.accepted + 1 }
  | .dropped => { s with dropped := s.dropped + 1 }
  | .discarded => s

/-- A channel between a plugin and the host. -/
structure Channel where
  /-- How many parcels the queue holds. -/
  limit : Nat
  /-- The parcels to be taken, in the order of their arrival. -/
  queue : List Parcel
  stats : ChannelStats
  /-- Whether somebody receives. -/
  received : Bool
  deriving Repr, DecidableEq

namespace Channel

/-- A channel for a number of parcels, at least one. -/
def bounded (capacity : Nat) : Channel := ⟨max capacity 1, [], .zero, true⟩

/-! ## The plugin's side -/

/-- The first step of an emit: the attempt to queue a parcel. -/
def enqueue (c : Channel) (p : Parcel) : Channel × EmitOutcome :=
  if !c.received then (c, .discarded)
  else if c.queue.length < c.limit then ({ c with queue := c.queue ++ [p] }, .accepted)
  else (c, .dropped)

/-- The second step of an emit: its outcome is counted. -/
def count (c : Channel) (outcome : EmitOutcome) : Channel :=
  { c with stats := c.stats.count outcome }

/-- A whole emit. -/
def emit (c : Channel) (p : Parcel) : Channel :=
  (c.enqueue p).1.count (c.enqueue p).2

/-- Counts data that was no parcel. -/
def reject (c : Channel) : Channel :=
  { c with stats := { c.stats with malformed := c.stats.malformed + 1 } }

/-! ## The host's side -/

def drain (c : Channel) : List Parcel × Channel := (c.queue, { c with queue := [] })

/-- Takes the next parcel, if there is one. -/
def next (c : Channel) : Option Parcel × Channel :=
  match c.queue with
  | [] => (none, c)
  | p :: r => (some p, { c with queue := r })

/-- Stops receiving: what is queued is lost, and later parcels are discarded. -/
def close (c : Channel) : Channel := { c with queue := [], received := false }

end Channel

end Conformance
