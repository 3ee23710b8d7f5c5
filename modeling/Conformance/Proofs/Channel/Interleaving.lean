import Conformance.Channel

/-!
# Emits, rejects and takes that interleave

Any number of threads emit into one channel while the host takes from it.
An emit is two steps, the attempt and the count of its outcome, and the
steps of other threads and of the host come between them in any order; a
drain takes parcel by parcel until it finds the queue empty.

`Steps s es s'` reads off, event by event, how the traffic `s` becomes
`s'`. What the events tell (`arrivals`, `handedOut`, ...) and what the
channel holds and counts are tied together by the `Ledger`, which every
step keeps (`Ledger.step`). The counters lag behind the queue by the emits
whose outcome is not counted yet, so the ledger has them as one more
account, and the laws of a channel at rest (`accounting`) are those
accounts without that one.

Steps with nothing in between amount to the operations of `Channel`
(`emit_uninterrupted`, `drain_uninterrupted`).
-/

namespace Conformance

/-- A channel in use by threads named in `τ`, and what is going on there:
the threads whose last emit is not counted yet, each with its outcome, and
the parcels that a drain has taken so far, if one is under way. -/
structure Traffic (τ : Type) where
  channel : Channel
  uncounted : List (τ × EmitOutcome)
  drain : Option (List Parcel)

namespace Traffic

variable {τ : Type}

/-- A new channel that nobody has used. -/
def start (τ : Type) (capacity : Nat) : Traffic τ := ⟨.bounded capacity, [], none⟩

/-- What a drain has taken and not handed out yet. -/
def taken (s : Traffic τ) : List Parcel := s.drain.getD []

/-- A thread is idle when the outcomes of all its emits are counted. -/
def Idle (s : Traffic τ) (t : τ) : Prop := t ∉ s.uncounted.map Prod.fst

instance [DecidableEq τ] (s : Traffic τ) (t : τ) : Decidable (s.Idle t) :=
  inferInstanceAs (Decidable (t ∉ s.uncounted.map Prod.fst))

/-- One step of a thread or of the host, with what comes of it. -/
inductive Event (τ : Type) where
  | attempt (t : τ) (p : Parcel) (outcome : EmitOutcome)
  | count (t : τ) (outcome : EmitOutcome)
  | reject (t : τ)
  | drainBegins
  | drainTakes (p : Parcel)
  | drained (ps : List Parcel)
  | waited (p : Option Parcel)

/-- The host waits for a parcel only when no drain is under way: it has
one thread. A wait ends in one take, with nothing when its time is over. -/
inductive Step [DecidableEq τ] : Traffic τ → Event τ → Traffic τ → Prop where
  | attempt {s : Traffic τ} {t : τ} (p : Parcel) (hidle : s.Idle t) :
      Step s (.attempt t p (s.channel.enqueue p).2)
        { s with
          channel := (s.channel.enqueue p).1
          uncounted := (t, (s.channel.enqueue p).2) :: s.uncounted }
  | count {s : Traffic τ} {t : τ} {o : EmitOutcome} (hmem : (t, o) ∈ s.uncounted) :
      Step s (.count t o)
        { s with channel := s.channel.count o, uncounted := s.uncounted.erase (t, o) }
  | reject {s : Traffic τ} {t : τ} (hidle : s.Idle t) :
      Step s (.reject t) { s with channel := s.channel.reject }
  | drainBegins {s : Traffic τ} (hdrain : s.drain = none) :
      Step s .drainBegins { s with drain := some [] }
  | drainTakes {s : Traffic τ} {ps : List Parcel} {p : Parcel} (hdrain : s.drain = some ps)
      (hnext : s.channel.next.1 = some p) :
      Step s (.drainTakes p) { s with channel := s.channel.next.2, drain := some (ps ++ [p]) }
  | drained {s : Traffic τ} {ps : List Parcel} (hdrain : s.drain = some ps)
      (hnext : s.channel.next.1 = none) :
      Step s (.drained ps) { s with channel := s.channel.next.2, drain := none }
  | waited {s : Traffic τ} (hdrain : s.drain = none) :
      Step s (.waited s.channel.next.1) { s with channel := s.channel.next.2 }

/-- Several steps, with their events in order. -/
inductive Steps [DecidableEq τ] (s : Traffic τ) : List (Event τ) → Traffic τ → Prop where
  | nil : Steps s [] s
  | snoc {s' s'' : Traffic τ} {es : List (Event τ)} {e : Event τ} (hsteps : Steps s es s')
      (hstep : Step s' e s'') : Steps s (es ++ [e]) s''

/-! ## What the events tell -/

/-- The emits in the order of their attempts. -/
def emits (es : List (Event τ)) : List (τ × Parcel × EmitOutcome) :=
  es.filterMap fun
    | .attempt t p o => some (t, p, o)
    | _ => none

/-- The emits of one thread, in its own order. -/
def emitsOf [DecidableEq τ] (t : τ) (es : List (Event τ)) : List (Parcel × EmitOutcome) :=
  es.filterMap fun
    | .attempt t' p o => if t' = t then some (p, o) else none
    | _ => none

/-- The parcels that were accepted, each with its thread, in the order in
which they were queued. -/
def arrivals (es : List (Event τ)) : List (τ × Parcel) :=
  es.filterMap fun
    | .attempt t p .accepted => some (t, p)
    | _ => none

/-- The parcels that the host was handed by drains and waits. -/
def handedOut (es : List (Event τ)) : List Parcel :=
  es.flatMap fun
    | .drained ps => ps
    | .waited p => p.toList
    | _ => []

/-- How often data was turned away. -/
def rejects (es : List (Event τ)) : Nat :=
  es.countP fun
    | .reject _ => true
    | _ => false

/-- The arrivals of a thread are its own emits, less those refused. -/
theorem arrivals_of_thread [DecidableEq τ] (t : τ) (es : List (Event τ)) :
    ((arrivals es).filter fun a => a.1 = t).map Prod.snd
      = ((emitsOf t es).filter fun a => a.2 = .accepted).map Prod.fst := by
  induction es with
  | nil => rfl
  | cons e es ih =>
      simp only [arrivals, emitsOf] at ih ⊢
      cases e with
      | attempt t' p o =>
          by_cases ht : t' = t
          · cases o <;> simp [ht, ih]
          · cases o <;> simp [ht, ih]
      | count t' o => simpa using ih
      | reject t' => simpa using ih
      | drainBegins => simpa using ih
      | drainTakes p => simpa using ih
      | drained ps => simpa using ih
      | waited p => simpa using ih

/-! ## One step of the channel -/

theorem enqueue_of_room {c : Channel} (hr : c.received = true)
    (hroom : c.queue.length < c.limit) (p : Parcel) :
    c.enqueue p = ({ c with queue := c.queue ++ [p] }, .accepted) := by
  simp [Channel.enqueue, hr, hroom]

theorem enqueue_of_full {c : Channel} (hr : c.received = true)
    (hfull : ¬ c.queue.length < c.limit) (p : Parcel) : c.enqueue p = (c, .dropped) := by
  simp [Channel.enqueue, hr, hfull]

/-- Taking gives the head of the queue, and changes nothing else. -/
theorem next_queue (c : Channel) : c.next.1.toList ++ c.next.2.queue = c.queue := by
  unfold Channel.next
  cases hq : c.queue with
  | nil => simp [hq]
  | cons p r => rfl

theorem next_frame (c : Channel) : c.next.2 = { c with queue := c.next.2.queue } := by
  unfold Channel.next
  cases hq : c.queue with
  | nil => rfl
  | cons p r => rfl

/-! ## The ledger -/

/-- The accounts after the events of a run: every accepted parcel is
handed out, taken or queued, and every emit is counted or in flight. -/
structure Ledger (capacity : Nat) (es : List (Event τ)) (s : Traffic τ) : Prop where
  limit : s.channel.limit = max capacity 1
  received : s.channel.received = true
  room : s.channel.queue.length ≤ max capacity 1
  order : handedOut es ++ s.taken ++ s.channel.queue = (arrivals es).map Prod.snd
  accepted : s.channel.stats.accepted + s.uncounted.countP (fun u => u.2 = .accepted)
    = (arrivals es).length
  emitted : s.channel.stats.accepted + s.channel.stats.dropped + s.uncounted.length
    = (emits es).length
  malformed : s.channel.stats.malformed = rejects es
  kept : ∀ u ∈ s.uncounted, u.2 ≠ .discarded

theorem ledger_start (capacity : Nat) : Ledger capacity [] (start τ capacity) where
  limit := rfl
  received := rfl
  room := Nat.zero_le _
  order := rfl
  accepted := rfl
  emitted := rfl
  malformed := rfl
  kept := by simp [start]

namespace Ledger

variable {capacity : Nat} {es : List (Event τ)} {s s' : Traffic τ}

theorem attempt (h : Ledger capacity es s) (t : τ) (p : Parcel) :
    Ledger capacity (es ++ [.attempt t p (s.channel.enqueue p).2])
      { s with
        channel := (s.channel.enqueue p).1
        uncounted := (t, (s.channel.enqueue p).2) :: s.uncounted } := by
  have horder := h.order
  have haccepted := h.accepted
  have hemitted := h.emitted
  by_cases hroom : s.channel.queue.length < s.channel.limit
  · rw [enqueue_of_room h.received hroom]
    exact {
      limit := h.limit
      received := h.received
      room := by
        have hlimit := h.limit
        simp only [List.length_append, List.length_singleton]
        omega
      order := by
        simp only [handedOut, arrivals, taken] at horder ⊢
        simp [← horder]
      accepted := by
        simp only [arrivals] at haccepted ⊢
        simp
        omega
      emitted := by
        simp only [emits] at hemitted ⊢
        simp
        omega
      malformed := by simpa [rejects] using h.malformed
      kept := by simpa using h.kept }
  · rw [enqueue_of_full h.received hroom]
    exact {
      limit := h.limit
      received := h.received
      room := h.room
      order := by simpa [handedOut, arrivals, taken] using horder
      accepted := by simpa [arrivals] using haccepted
      emitted := by
        simp only [emits] at hemitted ⊢
        simp
        omega
      malformed := by simpa [rejects] using h.malformed
      kept := by simpa using h.kept }

theorem count [DecidableEq τ] (h : Ledger capacity es s) {t : τ} {o : EmitOutcome}
    (hmem : (t, o) ∈ s.uncounted) :
    Ledger capacity (es ++ [.count t o])
      { s with channel := s.channel.count o, uncounted := s.uncounted.erase (t, o) } := by
  have haccepted := h.accepted
  have hemitted := h.emitted
  have hperm := List.perm_cons_erase hmem
  have hlength := hperm.length_eq
  have hcount := hperm.countP_eq fun u => u.2 = .accepted
  have hkept := h.kept _ hmem
  rw [List.length_cons] at hlength
  rw [List.countP_cons] at hcount
  exact {
    limit := h.limit
    received := h.received
    room := h.room
    order := by simpa [handedOut, arrivals, taken, Channel.count] using h.order
    accepted := by
      simp only [arrivals] at haccepted ⊢
      cases o <;> simp [Channel.count, ChannelStats.count] at hcount hkept ⊢ <;> omega
    emitted := by
      simp only [emits] at hemitted ⊢
      cases o <;> simp [Channel.count, ChannelStats.count] at hkept ⊢ <;> omega
    malformed := by
      have hsame : (s.channel.count o).stats.malformed = s.channel.stats.malformed := by
        cases o <;> rfl
      simpa [rejects, hsame] using h.malformed
    kept := fun u hu => h.kept u (List.mem_of_mem_erase hu) }

theorem reject (h : Ledger capacity es s) (t : τ) :
    Ledger capacity (es ++ [.reject t]) { s with channel := s.channel.reject } := by
  have hmalformed := h.malformed
  exact {
    limit := h.limit
    received := h.received
    room := h.room
    order := by simpa [handedOut, arrivals, taken, Channel.reject] using h.order
    accepted := by simpa [arrivals, Channel.reject] using h.accepted
    emitted := by simpa [emits, Channel.reject] using h.emitted
    malformed := by
      simp only [rejects] at hmalformed ⊢
      simp [Channel.reject, hmalformed]
    kept := h.kept }

/-- A step of the host takes at most the head of the queue. What matters
is that it ends up behind all that was handed out or taken before. -/
theorem take (h : Ledger capacity es s) {e : Event τ} {q : List Parcel} {d : Option (List Parcel)}
    (hshorter : q.length ≤ s.channel.queue.length)
    (harrivals : arrivals (es ++ [e]) = arrivals es) (hemits : emits (es ++ [e]) = emits es)
    (hrejects : rejects (es ++ [e]) = rejects es)
    (horder : handedOut (es ++ [e]) ++ d.getD [] ++ q
      = handedOut es ++ s.taken ++ s.channel.queue) :
    Ledger capacity (es ++ [e])
      { s with channel := { s.channel with queue := q }, drain := d } where
  limit := h.limit
  received := h.received
  room := Nat.le_trans hshorter h.room
  order := by rw [harrivals, ← h.order, ← horder]; rfl
  accepted := by rw [harrivals]; exact h.accepted
  emitted := by rw [hemits]; exact h.emitted
  malformed := by rw [hrejects]; exact h.malformed
  kept := h.kept

/-- Every step keeps the accounts. -/
theorem step [DecidableEq τ] (h : Ledger capacity es s) {e : Event τ} (hstep : Step s e s') :
    Ledger capacity (es ++ [e]) s' := by
  cases hstep with
  | attempt p hidle => exact h.attempt _ p
  | count hmem => exact h.count hmem
  | reject hidle => exact h.reject _
  | drainBegins hdrain =>
      have htaken : s.taken = [] := by rw [taken, hdrain]; rfl
      exact h.take (e := .drainBegins) (q := s.channel.queue) (d := some []) (Nat.le_refl _)
        (by simp [arrivals]) (by simp [emits]) (by simp [rejects])
        (by simp [handedOut, htaken])
  | drainTakes hdrain hnext =>
      rename_i ps p
      have htaken : s.taken = ps := by rw [taken, hdrain]; rfl
      have hqueue := next_queue s.channel
      rw [hnext] at hqueue
      rw [next_frame]
      exact h.take (e := .drainTakes p) (by simp [← hqueue])
        (by simp [arrivals]) (by simp [emits]) (by simp [rejects])
        (by simp [handedOut, htaken, ← hqueue])
  | drained hdrain hnext =>
      rename_i ps
      have htaken : s.taken = ps := by rw [taken, hdrain]; rfl
      have hqueue := next_queue s.channel
      rw [hnext] at hqueue
      rw [next_frame]
      exact h.take (e := .drained ps) (by simp [← hqueue])
        (by simp [arrivals]) (by simp [emits]) (by simp [rejects])
        (by simp [handedOut, htaken, ← hqueue])
  | waited hdrain =>
      have htaken : s.taken = [] := by rw [taken, hdrain]; rfl
      have hqueue := next_queue s.channel
      rw [next_frame]
      exact h.take (e := .waited s.channel.next.1) (by simp [← hqueue])
        (by simp [arrivals]) (by simp [emits]) (by simp [rejects])
        (by rw [hdrain, htaken]; simp [handedOut, ← hqueue])

end Ledger

theorem ledger_of_steps [DecidableEq τ] {capacity : Nat} {es : List (Event τ)} {s : Traffic τ}
    (h : Steps (start τ capacity) es s) : Ledger capacity es s := by
  induction h with
  | nil => exact ledger_start capacity
  | snoc _ hstep ih => exact ih.step hstep

/-- **Accounting.** However the steps of emits, rejects, drains and waits
interleave, the queue never holds more parcels than the channel is for,
and a parcel is refused only by a queue that holds so many. What was taken
from the queue, and then what is in it, is what was accepted, in the order
in which it was queued, so of one thread in the order of its emits. While
no emit is between its two steps the counters tell how many parcels were
accepted and refused, and how often data was turned away. -/
theorem accounting [DecidableEq τ] {capacity : Nat} {es : List (Event τ)} {s : Traffic τ}
    (h : Steps (start τ capacity) es s) :
    s.channel.queue.length ≤ max capacity 1
    ∧ (∀ t p o s', Step s (.attempt t p o) s' → o ≠ .accepted →
        o = .dropped ∧ s.channel.queue.length = max capacity 1)
    ∧ handedOut es ++ s.taken ++ s.channel.queue = (arrivals es).map Prod.snd
    ∧ (∀ t, ((arrivals es).filter fun a => a.1 = t).map Prod.snd
        = ((emitsOf t es).filter fun a => a.2 = .accepted).map Prod.fst)
    ∧ (s.uncounted = [] →
        s.channel.stats.accepted + s.channel.stats.dropped = (emits es).length
        ∧ s.channel.stats.accepted = (handedOut es ++ s.taken).length + s.channel.queue.length
        ∧ s.channel.stats.malformed = rejects es) := by
  have hledger := ledger_of_steps h
  refine ⟨hledger.room, ?_, hledger.order, fun t => arrivals_of_thread t es, ?_⟩
  · intro t p o s' hstep ho
    cases hstep
    have hlimit := hledger.limit
    have hroom := hledger.room
    by_cases hshort : s.channel.queue.length < s.channel.limit
    · rw [enqueue_of_room hledger.received hshort] at ho
      exact absurd rfl ho
    · rw [enqueue_of_full hledger.received hshort]
      exact ⟨rfl, by omega⟩
  · intro hrest
    have haccepted := hledger.accepted
    have hemitted := hledger.emitted
    have horder := congrArg List.length hledger.order
    rw [hrest] at haccepted hemitted
    simp only [List.countP_nil, List.length_nil, List.length_append, List.length_map]
      at haccepted hemitted horder ⊢
    exact ⟨by omega, by omega, hledger.malformed⟩

/-- A full queue of one refuses the emit of another thread, and the host
drains while that refusal and the first emit are yet to be counted. -/
theorem accounting_two_threads :
    let p (n : UInt64) : Parcel := {
      time := ⟨0, 0⟩, sender := "a", recipient := "host", type := "t", compression := .none
      sequence := ⟨1, n⟩, group := none, payload := [] }
    ∃ (es : List (Event Bool)) (s : Traffic Bool), Steps (start Bool 0) es s
      ∧ s.uncounted = [] ∧ handedOut es = [p 0, p 2]
      ∧ s.channel.stats.accepted + s.channel.stats.dropped = 3
      ∧ s.channel.stats.accepted = 2 ∧ s.channel.stats.malformed = 1 := by
  intro p
  have hfull : Steps (start Bool 0) _ _ := (Steps.nil.snoc
    (.attempt (t := false) (p 0) (by decide))).snoc
    (.attempt (t := true) (p 1) (by decide))
  have hdraining := ((((hfull.snoc
    (.drainBegins rfl)).snoc
    (.drainTakes (p := p 0) rfl rfl)).snoc
    (.count (t := false) (o := .accepted) (by decide))).snoc
    (.attempt (t := false) (p 2) (by decide))).snoc
    (.count (t := true) (o := .dropped) (by decide))
  have hrest := (((hdraining.snoc
    (.reject (t := true) (by decide))).snoc
    (.count (t := false) (o := .accepted) (by decide))).snoc
    (.drainTakes (p := p 2) rfl rfl)).snoc
    (.drained rfl rfl)
  obtain ⟨-, -, -, -, hcounted⟩ := accounting hrest
  obtain ⟨hemits, haccepted, hmalformed⟩ := hcounted rfl
  exact ⟨_, _, hrest, rfl, rfl, hemits, haccepted, hmalformed⟩

/-! ## Nothing in between -/

theorem Steps.append [DecidableEq τ] {s s' s'' : Traffic τ} {es es' : List (Event τ)}
    (h : Steps s es s') (h' : Steps s' es' s'') : Steps s (es ++ es') s'' := by
  induction h' with
  | nil => simpa using h
  | snoc _ hstep ih => simpa using ih.snoc hstep

theorem emit_uninterrupted [DecidableEq τ] {s : Traffic τ} {t : τ} (hidle : s.Idle t)
    (p : Parcel) :
    Steps s [.attempt t p (s.channel.enqueue p).2, .count t (s.channel.enqueue p).2]
      { s with channel := s.channel.emit p } := by
  have hattempt := Steps.nil.snoc (Step.attempt p hidle)
  have hcount := hattempt.snoc (Step.count (List.mem_cons_self ..))
  simpa [Channel.emit] using hcount

theorem takes_uninterrupted [DecidableEq τ] : ∀ (q : List Parcel) {s : Traffic τ}
    {ps : List Parcel}, s.channel.queue = q → s.drain = some ps →
    Steps s (q.map .drainTakes)
      { s with channel := { s.channel with queue := [] }, drain := some (ps ++ q) }
  | [], s, ps, hqueue, hdrain => by
      have hsame : { s with channel := { s.channel with queue := [] }, drain := some (ps ++ []) }
          = s := by
        obtain ⟨⟨limit, queue, stats, received⟩, uncounted, drain⟩ := s
        simp_all
      rw [hsame]
      exact .nil
  | p :: q, s, ps, hqueue, hdrain => by
      have hnext : s.channel.next = (some p, { s.channel with queue := q }) := by
        simp [Channel.next, hqueue]
      have hone := Steps.nil.snoc (Step.drainTakes hdrain (congrArg Prod.fst hnext))
      rw [hnext] at hone
      have hrest := takes_uninterrupted q
        (s := { s with channel := { s.channel with queue := q }, drain := some (ps ++ [p]) })
        rfl rfl
      simpa using hone.append hrest

theorem drain_uninterrupted [DecidableEq τ] {s : Traffic τ} (hdrain : s.drain = none) :
    Steps s (.drainBegins :: s.channel.queue.map .drainTakes ++ [.drained s.channel.drain.1])
      { s with channel := s.channel.drain.2 } := by
  have hbegin := Steps.nil.snoc (Step.drainBegins hdrain)
  have htakes := takes_uninterrupted s.channel.queue (s := { s with drain := some [] }) rfl rfl
  have hend := (hbegin.append htakes).snoc (Step.drained rfl rfl)
  simpa [Channel.drain, Channel.next, ← hdrain] using hend

end Traffic

end Conformance
