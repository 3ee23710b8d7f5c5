import Mathlib.Order.Bounds.Basic
import Conformance.FileWatch.Module
import Conformance.Proofs.FileWatch.Passes
import Conformance.Proofs.Text.Utf8

/-!
# Requests to the file watch

A request is taken as a whole or not at all (`deliverAt_cases`): with the
code 0 there is one watch more, with any other code all is as before. It
is taken just if it goes to the monitor and names a path. What it asks for
is read off its value (`Asks`, `Wants`), and the value is the only one
that its text has (`Holds.unique`).

After any number of requests and passes the interval is the least of the
interval at the start and those that accepted requests wanted (`Served`).
Each event keeps this, and passes change nothing of it; that it is a least
element says that the order of the requests does not count.
-/

namespace Conformance

theorem RawText.read_eq_ok {field text : String} {t : RawText} :
    RawText.read field t = .ok text
      ↔ ∃ bytes, t = some bytes ∧ Utf8.encode text = RawText.cut bytes := by
  cases t with
  | none => simp [RawText.read]
  | some bytes =>
      simp only [RawText.read, Option.some.injEq, exists_eq_left', ← Utf8.decode?_eq_some]
      cases Utf8.decode? (RawText.cut bytes) <;> simp

theorem Json.word64?_eq_some {v : Json} {n : Nat} :
    v.word64? = some n ↔ n < 2 ^ 64 ∧ v = .num (.int n) := by
  unfold Json.word64?
  constructor
  · intro h
    split at h
    · rename_i i hi
      split at h
      · rename_i hrange
        obtain rfl := Option.some.inj h
        simp only [Bool.and_eq_true, decide_eq_true_eq] at hrange
        refine ⟨by omega, ?_⟩
        rw [Int.toNat_of_nonneg hrange.1]
        cases v with
        | num number => cases number <;> cases hi; rfl
        | null | bool _ | str _ | arr _ | obj _ => cases hi
      · cases h
    · cases h
  · rintro ⟨hn, rfl⟩
    have hrange : (n : Int) < 0x10000000000000000 := by omega
    simp [Json.int?, hrange]

namespace FileWatch

/-! ## What a request asks for -/

/-- The request is a text in JSON of this value. -/
def Holds (request : RawText) (v : Json) : Prop :=
  ∃ bytes text, request = some bytes ∧ Utf8.encode text = RawText.cut bytes
    ∧ Json.read? text = some v

/-- The value names this path. -/
def Names (v : Json) (path : Path) : Prop :=
  ∃ text, v.get? "path" = some (.str text) ∧ Utf8.encode text = path

/-- The value asks for a watch of this path and of exactly these kinds. -/
structure Asks (v : Json) (path : Path) (kinds : List AttributeKind) : Prop where
  names : Names v path
  lists : ∀ k, k ∈ kinds ↔ ∃ es, v.get? "attributes" = some (.arr es) ∧ .str k.name ∈ es

/-- The value wants a pass after so many milliseconds at the latest. -/
def Wants (v : Json) (ms : Nat) : Prop :=
  ms < 2 ^ 64 ∧ ∃ config, v.get? "config" = some config
    ∧ config.get? "interval_ms" = some (.num (.int ms))

theorem Holds.unique {request : RawText} {v v' : Json} (h : Holds request v)
    (h' : Holds request v') : v = v' := by
  obtain ⟨bytes, text, rfl, htext, hv⟩ := h
  obtain ⟨bytes', text', heq, htext', hv'⟩ := h'
  obtain rfl := Option.some.inj heq
  have hsame := Utf8.decode?_eq_some.mpr (htext.trans htext'.symm)
  rw [Utf8.decode?_encode] at hsame
  obtain rfl := Option.some.inj hsame
  exact Option.some.inj (hv.symm.trans hv')

theorem Request.ofRaw?_eq_some {t : RawText} {r : Request} :
    Request.ofRaw? t = some r ↔ ∃ v, Holds t v ∧ Request.ofJson? v = some r := by
  unfold Request.ofRaw?
  constructor
  · intro h
    split at h
    · rename_i text htext
      obtain ⟨v, hv, hr⟩ := Option.bind_eq_some_iff.mp h
      obtain ⟨bytes, ht, hbytes⟩ := RawText.read_eq_ok.mp htext
      exact ⟨v, ⟨bytes, text, ht, hbytes, hv⟩, hr⟩
    · cases h
  · rintro ⟨v, ⟨bytes, text, ht, hbytes, hv⟩, hr⟩
    rw [RawText.read_eq_ok.mpr ⟨bytes, ht, hbytes⟩]
    exact Option.bind_eq_some_iff.mpr ⟨v, hv, hr⟩

theorem Request.kind?_eq_some {v : Json} {k : AttributeKind} :
    Request.kind? v = some k ↔ v = .str k.name := by
  cases v with
  | str text =>
      show (AttributeKind.ofName text).toOption = some k ↔ _
      rw [AttributeKind.ofName_eq_some, Json.str.injEq, eq_comm]
  | null | bool _ | num _ | arr _ | obj _ => simp [Request.kind?, Json.str?]

theorem Request.asks {v : Json} {r : Request} (h : Request.ofJson? v = some r) :
    Asks v r.path r.kinds := by
  obtain ⟨text, htext, rfl⟩ := Option.map_eq_some_iff.mp h
  obtain ⟨path, hpath, hstr⟩ := Option.bind_eq_some_iff.mp htext
  refine ⟨⟨text, ?_, rfl⟩, fun k => ?_⟩
  · cases path <;> cases hstr
    exact hpath
  · show k ∈ Request.kindsOf v ↔ _
    rw [Request.kindsOf, AttributeKind.mem_inOrder, List.mem_filterMap]
    simp only [Request.kind?_eq_some, exists_eq_right]
    constructor
    · intro hmem
      cases hattributes : v.get? "attributes" with
      | none => simp [hattributes] at hmem
      | some list =>
          cases list with
          | arr es => exact ⟨es, rfl, by simpa [hattributes, Json.arr?] using hmem⟩
          | null | bool _ | num _ | str _ | obj _ => simp [hattributes, Json.arr?] at hmem
    · rintro ⟨es, hes, hmem⟩
      simpa [hes, Json.arr?] using hmem

theorem Request.wants {v : Json} {r : Request} (h : Request.ofJson? v = some r) (ms : Nat) :
    r.interval = some ms ↔ Wants v ms := by
  obtain ⟨text, -, rfl⟩ := Option.map_eq_some_iff.mp h
  show Request.intervalOf? v = some ms ↔ _
  simp only [Request.intervalOf?, Option.bind_eq_some_iff, Json.word64?_eq_some, Wants]
  constructor
  · rintro ⟨interval, ⟨config, hconfig, hinterval⟩, hms, rfl⟩
    exact ⟨hms, config, hconfig, hinterval⟩
  · rintro ⟨hms, config, hconfig, hinterval⟩
    exact ⟨_, ⟨config, hconfig, hinterval⟩, hms, rfl⟩

theorem Request.exists_ofRaw?_iff {t : RawText} :
    (∃ r, Request.ofRaw? t = some r) ↔ ∃ v path, Holds t v ∧ Names v path := by
  constructor
  · rintro ⟨r, hr⟩
    obtain ⟨v, hv, hjson⟩ := Request.ofRaw?_eq_some.mp hr
    exact ⟨v, r.path, hv, (Request.asks hjson).names⟩
  · rintro ⟨v, path, hv, text, htext, rfl⟩
    refine ⟨⟨Utf8.encode text, Request.kindsOf v, Request.intervalOf? v⟩, ?_⟩
    refine Request.ofRaw?_eq_some.mpr ⟨v, hv, ?_⟩
    simp [Request.ofJson?, htext, Json.str?]

/-! ## One request -/

/-- A request is turned down, or one watch is added. -/
theorem deliverAt_cases (w : Watcher) (state : Address) (handler : HandlerRef)
    (request : RawText) :
    (∃ answer, deliverAt (some w) state handler request = (answer, some w) ∧ answer.code ≠ 0
        ∧ ¬ (state ≠ 0 ∧ handler = monitor ∧ ∃ r, Request.ofRaw? request = some r))
      ∨ ∃ r, deliverAt (some w) state handler request = (.accepted, some (w.accept r))
        ∧ state ≠ 0 ∧ handler = monitor ∧ Request.ofRaw? request = some r := by
  unfold deliverAt
  by_cases hstate : state = 0
  · exact .inl ⟨.badRequest, by simp [hstate], by decide, fun h => h.1 hstate⟩
  · simp only [hstate, decide_false]
    unfold Watcher.answer
    by_cases hhandler : handler = monitor
    · rw [if_neg (not_not.mpr hhandler)]
      cases hr : Request.ofRaw? request with
      | none => exact .inl ⟨.badRequest, rfl, by decide, by simp⟩
      | some r => exact .inr ⟨r, rfl, hstate, hhandler, rfl⟩
    · exact .inl ⟨.unknownHandler, by simp [hhandler], by decide, fun h => hhandler h.2.1⟩

/-! ## Passes -/

theorem pass_keeps (w : Watcher) (h : Host) :
    (w.pass h).2.poller.watched = w.poller.watched ∧ (w.pass h).2.interval = w.interval := by
  have hpoll := w.poller.poll_watched w.now fun _ => h
  unfold Watcher.pass
  split <;> rename_i heq <;> rw [heq] at hpoll <;> exact ⟨hpoll, rfl⟩

theorem within_keeps (w : Watcher) (h : Host) (span : Nat) :
    (w.within h span).2.poller.watched = w.poller.watched
      ∧ (w.within h span).2.interval = w.interval := by
  unfold Watcher.within
  split
  · exact ⟨rfl, rfl⟩
  · split
    · exact ⟨rfl, rfl⟩
    · exact pass_keeps { w with elapsed := w.elapsed + w.due } h

/-! ## Histories -/

/-- What happens to a file watch between its start and its stop: requests,
and time in which its thread may make passes. -/
inductive Event where
  | deliver (state : Address) (handler : HandlerRef) (request : RawText)
  | elapse (h : Host) (span : Nat)

/-- The memory after an event. -/
def Event.step (memory : Memory) : Event → Memory
  | .deliver state handler request => (deliverAt memory state handler request).2
  | .elapse h span => (emitWithin memory h span).2

/-- The request of the event, if it is answered with the code 0. -/
def Event.accepted? (memory : Memory) : Event → Option RawText
  | .deliver state handler request =>
    if (deliverAt memory state handler request).1.code = 0 then some request else none
  | .elapse _ _ => none

/-- The memory after some events. -/
def after (memory : Memory) (events : List Event) : Memory := events.foldl Event.step memory

/-- The requests that are accepted. -/
def accepted (memory : Memory) : List Event → List RawText
  | [] => []
  | e :: r => (e.accepted? memory).toList ++ accepted (e.step memory) r

/-- The intervals that bound the one of a file watch. -/
def intervals (start : Nat) (requests : List RawText) : Set Nat :=
  {n | n = start ∨ ∃ request ∈ requests, ∃ v ms, Holds request v ∧ Wants v ms ∧ n = max ms 1}

/-- The file watch after the accepted requests. -/
structure Served (start : Nat) (requests : List RawText) (w : Watcher) : Prop where
  /-- There is one watch for each of them, in their order. -/
  watches : List.Forall₂ (fun request x => ∃ v, Holds request v ∧ Asks v x.1 x.2)
    requests w.poller.watched
  interval : IsLeast (intervals start requests) w.interval

theorem intervals_append (start : Nat) (requests : List RawText) {request : RawText} {v : Json}
    (hv : Holds request v) : intervals start (requests ++ [request])
      = intervals start requests ∪ {n | ∃ ms, Wants v ms ∧ n = max ms 1} := by
  ext n
  simp only [intervals, List.mem_append, List.mem_singleton, Set.mem_ofPred_eq, Set.mem_union]
  constructor
  · rintro (rfl | ⟨other, hother | rfl, v', ms, hv', hms, rfl⟩)
    · exact .inl (.inl rfl)
    · exact .inl (.inr ⟨other, hother, v', ms, hv', hms, rfl⟩)
    · exact .inr ⟨ms, hv'.unique hv ▸ hms, rfl⟩
  · rintro ((rfl | ⟨other, hother, h⟩) | ⟨ms, hms, rfl⟩)
    · exact .inl rfl
    · exact .inr ⟨other, .inl hother, h⟩
    · exact .inr ⟨request, .inr rfl, v, ms, hv, hms, rfl⟩

namespace Served

variable {start : Nat} {requests : List RawText} {w : Watcher}

theorem accept (h : Served start requests w) {request : RawText} {r : Request}
    (hr : Request.ofRaw? request = some r) :
    Served start (requests ++ [request]) (w.accept r) := by
  obtain ⟨v, hv, hr⟩ := Request.ofRaw?_eq_some.mp hr
  refine ⟨?_, ?_⟩
  · have hwatched : (w.accept r).poller.watched = w.poller.watched ++ [(r.path, r.kinds)] :=
      List.map_append
    rw [hwatched]
    exact List.rel_append h.watches (.cons ⟨v, hv, Request.asks hr⟩ .nil)
  · rw [intervals_append start requests hv]
    have hwants := Request.wants hr
    rcases r with ⟨path, kinds, _ | ms⟩
    · have hnone : {n | ∃ ms, Wants v ms ∧ n = max ms 1} = ∅ := by
        ext n
        simp [← hwants]
      rw [hnone, Set.union_empty]
      exact h.interval
    · have hone : {n | ∃ ms, Wants v ms ∧ n = max ms 1} = {max ms 1} := by
        ext n
        simp [← hwants]
      rw [hone]
      exact h.interval.union isLeast_singleton

theorem elapse (h : Served start requests w) (host : Host) (span : Nat) :
    Served start requests (w.within host span).2 := by
  obtain ⟨hwatched, hinterval⟩ := within_keeps w host span
  refine ⟨?_, ?_⟩
  · rw [hwatched]
    exact h.watches
  · rw [hinterval]
    exact h.interval

theorem step (h : Served start requests w) (e : Event) :
    ∃ w', e.step (some w) = some w'
      ∧ Served start (requests ++ (e.accepted? (some w)).toList) w' := by
  cases e with
  | deliver state handler request =>
      show ∃ w', (deliverAt (some w) state handler request).2 = some w' ∧ Served start
        (requests ++ (if (deliverAt (some w) state handler request).1.code = 0 then
          some request else none).toList) w'
      rcases deliverAt_cases w state handler request with
        ⟨answer, hanswer, hcode, -⟩ | ⟨r, hanswer, -, -, hr⟩
      · rw [hanswer]
        exact ⟨w, rfl, by simpa [hcode] using h⟩
      · rw [hanswer]
        exact ⟨w.accept r, rfl, h.accept hr⟩
  | elapse host span =>
      refine ⟨(w.within host span).2, rfl, ?_⟩
      simpa [Event.accepted?] using h.elapse host span

theorem after : ∀ (events : List Event) {requests : List RawText} {w : Watcher},
    Served start requests w → ∃ w', FileWatch.after (some w) events = some w'
      ∧ Served start (requests ++ accepted (some w) events) w'
  | [], _, w, h => ⟨w, rfl, by simpa [accepted] using h⟩
  | e :: r, requests, w, h => by
      obtain ⟨w', hw', hstep⟩ := h.step e
      obtain ⟨w'', hw'', hrest⟩ := after r hstep
      refine ⟨w'', ?_, ?_⟩
      · rw [FileWatch.after, List.foldl_cons, hw']
        exact hw''
      · rw [accepted, hw', ← List.append_assoc]
        exact hrest

theorem initial (attached : Bool) (config : RawText) :
    Served (Watcher.start attached config).interval [] (.start attached config) := by
  refine ⟨.nil, .inl rfl, ?_⟩
  rintro n (rfl | ⟨request, hrequest, -⟩)
  · exact Nat.le_refl _
  · exact absurd hrequest List.not_mem_nil

end Served

/-- **Requests.** Whatever a file watch is started with, and whatever
requests and passes there were, the interval is the least one that was
wanted, at the start or by an accepted request, and one millisecond at
least. The next request is accepted just if it goes to the monitor and
names a path, and then all of it is taken; else nothing is. -/
theorem requests_all_or_nothing (attached : Bool) (config : RawText) (events : List Event) :
    ∃ w, after (some (.start attached config)) events = some w
      ∧ 1 ≤ w.interval
      ∧ Served (Watcher.start attached config).interval
          (accepted (some (.start attached config)) events) w
      ∧ ∀ (state : Address) (handler : HandlerRef) (request : RawText),
        ((deliverAt (some w) state handler request).1.code = 0
            ↔ state ≠ 0 ∧ handler = monitor ∧ ∃ v path, Holds request v ∧ Names v path)
          ∧ ((deliverAt (some w) state handler request).1.code ≠ 0 →
            (deliverAt (some w) state handler request).2 = some w)
          ∧ ((deliverAt (some w) state handler request).1.code = 0 →
            ∃ v path kinds w', Holds request v ∧ Asks v path kinds
              ∧ (deliverAt (some w) state handler request).2 = some w'
              ∧ w'.poller.watches = w.poller.watches ++ [⟨path, kinds, none⟩]) := by
  obtain ⟨w, hw, hserved⟩ := (Served.initial attached config).after events
  refine ⟨w, hw, ?_, hserved, fun state handler request => ?_⟩
  · rcases hserved.interval.1 with hstart | ⟨-, -, -, ms, -, -, hms⟩
    · rw [hstart]
      exact Nat.le_max_right ..
    · rw [hms]
      exact Nat.le_max_right ..
  · rw [← Request.exists_ofRaw?_iff]
    rcases deliverAt_cases w state handler request with
      ⟨answer, hanswer, hcode, hrefused⟩ | ⟨r, hanswer, hstate, hhandler, hr⟩
    · rw [hanswer]
      refine ⟨⟨fun hzero => absurd hzero hcode, fun h => absurd h hrefused⟩, fun _ => rfl, ?_⟩
      exact fun hzero => absurd hzero hcode
    · obtain ⟨v, hv, hjson⟩ := Request.ofRaw?_eq_some.mp hr
      rw [hanswer]
      refine ⟨⟨fun _ => ⟨hstate, hhandler, r, hr⟩, fun _ => rfl⟩, fun hne => absurd rfl hne, ?_⟩
      intro _
      exact ⟨v, r.path, r.kinds, w.accept r, hv, Request.asks hjson, rfl, rfl⟩

end FileWatch

end Conformance
