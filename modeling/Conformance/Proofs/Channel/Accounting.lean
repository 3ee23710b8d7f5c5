import Conformance.Plugin

/-!
# What a channel accounts for

Whatever is handed over is accepted into the queue, dropped at a full
queue, or counted as malformed. Two statements follow for any list of
emissions that arrive one after the other with nothing taken out in
between: the counter of accepted parcels grows by exactly what the queue
grows (`takeAll_accepted`), and the two other counters stay as they are
exactly when everything is a parcel and there is room for all of them
(`takeAll_lossless_iff`).
-/

namespace Conformance.Channel

/-! ## One emission -/

theorem take_received (c : Channel) (e : Emission) : (c.take e).received = c.received := by
  cases e with
  | malformed => rfl
  | parcel p =>
      simp only [take, emit, enqueue]
      split
      · rfl
      · split <;> rfl

theorem take_accepted (c : Channel) (e : Emission) :
    (c.take e).stats.accepted + c.queue.length
      = c.stats.accepted + (c.take e).queue.length := by
  cases e with
  | malformed => rfl
  | parcel p =>
      simp only [take, emit, enqueue]
      split
      · rfl
      · split
        · simp [count, ChannelStats.count]; omega
        · rfl

theorem take_dropped_le (c : Channel) (e : Emission) :
    c.stats.dropped ≤ (c.take e).stats.dropped := by
  cases e with
  | malformed => exact Nat.le_refl _
  | parcel p =>
      simp only [take, emit, enqueue]
      split
      · exact Nat.le_refl _
      · split
        · exact Nat.le_refl _
        · exact Nat.le_succ _

theorem take_malformed_le (c : Channel) (e : Emission) :
    c.stats.malformed ≤ (c.take e).stats.malformed := by
  cases e with
  | malformed => exact Nat.le_succ _
  | parcel p =>
      simp only [take, emit, enqueue]
      split
      · exact Nat.le_refl _
      · split <;> exact Nat.le_refl _

/-- A parcel that finds room is queued behind the others. -/
theorem take_parcel_of_room {c : Channel} (hr : c.received = true)
    (hroom : c.queue.length < c.limit) (p : Parcel) :
    c.take (.parcel p) = { c with
      queue := c.queue ++ [p]
      stats := { c.stats with accepted := c.stats.accepted + 1 } } := by
  simp [take, emit, enqueue, count, ChannelStats.count, hr, hroom]

/-- A parcel that finds the queue full is dropped, and counted. -/
theorem take_parcel_of_full {c : Channel} (hr : c.received = true)
    (hfull : ¬ c.queue.length < c.limit) (p : Parcel) :
    (c.take (.parcel p)).stats.dropped = c.stats.dropped + 1 := by
  simp [take, emit, enqueue, count, ChannelStats.count, hr, hfull]

/-! ## Several emissions -/

theorem takeAll_cons (c : Channel) (e : Emission) (es : List Emission) :
    c.takeAll (e :: es) = (c.take e).takeAll es := rfl

theorem takeAll_append (c : Channel) (es es' : List Emission) :
    c.takeAll (es ++ es') = (c.takeAll es).takeAll es' := by
  simp [takeAll]

theorem takeAll_accepted : ∀ (es : List Emission) (c : Channel),
    (c.takeAll es).stats.accepted + c.queue.length
      = c.stats.accepted + (c.takeAll es).queue.length
  | [], _ => rfl
  | e :: es, c => by
      have hone := take_accepted c e
      have hrest := takeAll_accepted es (c.take e)
      rw [takeAll_cons]
      omega

theorem takeAll_dropped_le : ∀ (es : List Emission) (c : Channel),
    c.stats.dropped ≤ (c.takeAll es).stats.dropped
  | [], _ => Nat.le_refl _
  | e :: es, c => Nat.le_trans (take_dropped_le c e) (takeAll_dropped_le es (c.take e))

theorem takeAll_malformed_le : ∀ (es : List Emission) (c : Channel),
    c.stats.malformed ≤ (c.takeAll es).stats.malformed
  | [], _ => Nat.le_refl _
  | e :: es, c => Nat.le_trans (take_malformed_le c e) (takeAll_malformed_le es (c.take e))

/-- Parcels for which there is room are queued, all of them in order,
and nothing else is counted. -/
theorem takeAll_of_room : ∀ (ps : List Parcel) (c : Channel), c.received = true →
    c.queue.length + ps.length ≤ c.limit →
    c.takeAll (ps.map .parcel) = { c with
      queue := c.queue ++ ps
      stats := { c.stats with accepted := c.stats.accepted + ps.length } }
  | [], c, _, _ => by simp [takeAll]
  | p :: ps, c, hr, hroom => by
      simp only [List.length_cons] at hroom
      have hone := take_parcel_of_room hr (by omega) p
      have ih := takeAll_of_room ps (c.take (.parcel p)) ((take_received c _).trans hr)
        (by rw [hone]; simp; omega)
      rw [List.map_cons, takeAll_cons, ih, hone]
      simp [Nat.add_comm, Nat.add_left_comm]

/-- Nothing is lost and nothing is turned away exactly when everything
that arrives is a parcel and the queue has room for all. -/
theorem takeAll_lossless_iff : ∀ (es : List Emission) (c : Channel), c.received = true →
    c.queue.length ≤ c.limit →
    ((c.takeAll es).stats.dropped = c.stats.dropped
        ∧ (c.takeAll es).stats.malformed = c.stats.malformed
      ↔ ∃ ps : List Parcel, es = ps.map .parcel ∧ c.queue.length + ps.length ≤ c.limit)
  | [], c, _, hle => by
      refine ⟨fun _ => ⟨[], rfl, by simpa using hle⟩, fun _ => ⟨rfl, rfl⟩⟩
  | .malformed :: es, c, _, _ => by
      have hgrow := takeAll_malformed_le es (c.take .malformed)
      have hone : (c.take .malformed).stats.malformed = c.stats.malformed + 1 := rfl
      constructor
      · rintro ⟨-, hm⟩
        rw [takeAll_cons] at hm
        omega
      · rintro ⟨_ | ⟨p, ps⟩, heq, -⟩ <;> simp at heq
  | .parcel p :: es, c, hr, hle => by
      by_cases hroom : c.queue.length < c.limit
      · have hone := take_parcel_of_room hr hroom p
        have ih := takeAll_lossless_iff es (c.take (.parcel p))
          ((take_received c _).trans hr) (by rw [hone]; simp; omega)
        rw [hone] at ih
        rw [takeAll_cons, hone, ih]
        constructor
        · rintro ⟨ps, rfl, hfit⟩
          exact ⟨p :: ps, rfl, by simp at hfit ⊢; omega⟩
        · rintro ⟨_ | ⟨q, ps⟩, heq, hfit⟩
          · simp at heq
          · simp only [List.map_cons, List.cons.injEq, Emission.parcel.injEq] at heq
            exact ⟨ps, heq.2, by simp at hfit ⊢; omega⟩
      · have hone := take_parcel_of_full hr hroom p
        have hgrow := takeAll_dropped_le es (c.take (.parcel p))
        constructor
        · rintro ⟨hd, -⟩
          rw [takeAll_cons] at hd
          omega
        · rintro ⟨_ | ⟨q, ps⟩, heq, hfit⟩
          · simp at heq
          · simp at hfit
            omega

/-! ## What is admitted -/

/-- The parcel that is queued when something is handed over, if one is. -/
def admitted? (c : Channel) : Emission → Option Parcel
  | .parcel p => if (c.enqueue p).2 = .accepted then some p else none
  | .malformed => none

/-- The parcels that are queued when several things are handed over, in
order. -/
def admitted : Channel → List Emission → List Parcel
  | _, [] => []
  | c, e :: es => (c.admitted? e).toList ++ (c.take e).admitted es

theorem take_queue (c : Channel) (e : Emission) :
    (c.take e).queue = c.queue ++ (c.admitted? e).toList := by
  cases e with
  | malformed => exact (List.append_nil _).symm
  | parcel p =>
      simp only [take, emit, admitted?, enqueue]
      split
      · simp [count]
      · split <;> simp [count]

/-- The queue keeps its order, and what is admitted stands behind it. -/
theorem takeAll_queue (es : List Emission) (c : Channel) :
    (c.takeAll es).queue = c.queue ++ c.admitted es := by
  induction es generalizing c with
  | nil => exact (List.append_nil _).symm
  | cons e es ih => rw [takeAll_cons, ih, take_queue, List.append_assoc, admitted]

/-- A new channel loses nothing exactly when it is handed parcels only,
and no more than it holds; then they are what it holds. -/
theorem bounded_lossless_iff (capacity : Nat) (es : List Emission) :
    let c := (bounded capacity).takeAll es
    (c.stats.dropped = 0 ∧ c.stats.malformed = 0
      ↔ ∃ ps : List Parcel, es = ps.map .parcel ∧ ps.length ≤ max capacity 1) := by
  simpa [bounded, ChannelStats.zero] using
    takeAll_lossless_iff es (bounded capacity) rfl (by simp [bounded])

theorem bounded_queue_of_room {capacity : Nat} {ps : List Parcel}
    (hroom : ps.length ≤ max capacity 1) :
    ((bounded capacity).takeAll (ps.map .parcel)).queue = ps := by
  rw [takeAll_of_room ps _ rfl (by simpa [bounded] using hroom)]
  simp [bounded]

end Conformance.Channel
