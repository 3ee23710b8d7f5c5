import Conformance.FileWatch.Poller
import Conformance.Proofs.Capture.Snapshots

/-!
# Passes of the poller

Every state of a watch can be reported, but for two: that of a file which
is there and has a path that is no text, and that of a file whose capture
breaks off (`Watch.payload?_eq_none_iff`). As long as a look meets none of
these it takes every watch to what was found of it (`seen`), and collects
what differs from what was reported last (`news`); the induction on the
watches is `look_append`.

So a pass numbers the payloads that are new as the parcels of one group,
and goes on counting from there (`Poller.poll_of_reported`), or it breaks
off and counts nothing (`Poller.poll_of_stuck`). A host may say anything
about single paths, and every watch has a host of its own; so this covers
files that change while the pass goes on.
-/

namespace Conformance.FileWatch

/-! ## One watch -/

/-- The path of the watch is a text. -/
def Watch.Textual (w : Watch) : Prop := (Utf8.decode? w.path).isSome = true

/-- The file is there and its path is no text, so that the snapshot cannot
be written down; or the capture breaks off. -/
inductive Watch.Unreportable (w : Watch) (h : Host) : Prop
  | noText (hpath : ¬ w.Textual) {s : Snapshot} (hcapture : h.capture w.path w.kinds = .ok s)
  | farTime {kind : TimestampKind} (hcapture : h.capture w.path w.kinds = .error (.overflow kind))

/-- Every other state has a payload, also one of a path that is no text. -/
theorem Watch.payload?_eq_none_iff {w : Watch} {h : Host} :
    w.payload? h = none ↔ w.Unreportable h := by
  unfold Watch.payload? FileWatch.payload?
  rcases hc : h.capture w.path w.kinds with (fault | kind) | snapshot
  · have hreported : ¬ w.Unreportable h := by
      rintro (⟨-, hcapture⟩ | hcapture) <;> cases hc.symm.trans hcapture
    by_cases hmissing : fault.isNotFound = true <;> simp [hmissing, hreported]
  · simpa using Watch.Unreportable.farTime hc
  · have hpath := Host.path_of_capture hc
    simp only [Snapshot.json?, hpath, Option.map_map, Option.map_eq_none_iff]
    constructor
    · intro hnone
      exact .noText (by rw [Watch.Textual, hnone]; exact Bool.false_ne_true) hc
    · rintro (⟨hstuck, -⟩ | hcapture)
      · exact Option.not_isSome_iff_eq_none.mp hstuck
      · cases hc.symm.trans hcapture

/-- A text lacks a payload only where the capture breaks off. -/
theorem Watch.payload?_eq_none_of_textual {w : Watch} (hw : w.Textual) {h : Host} :
    w.payload? h = none ↔ ∃ kind, h.capture w.path w.kinds = .error (.overflow kind) := by
  rw [Watch.payload?_eq_none_iff]
  constructor
  · rintro (⟨hstuck, -⟩ | hcapture)
    · exact absurd hw hstuck
    · exact ⟨_, hcapture⟩
  · rintro ⟨kind, hcapture⟩
    exact .farTime hcapture

/-- The watch after a look at it on a host. -/
def Watch.seen (w : Watch) (h : Host) : Watch := { w with last := w.payload? h }

/-- The payload of the state on a host, if it is not the one that was
reported last. -/
def Watch.news? (w : Watch) (h : Host) : Option Bytes :=
  (w.payload? h).filter (w.last ≠ some ·)

theorem Watch.report_eq {w : Watch} {h : Host} {payload : Bytes}
    (hpayload : w.payload? h = some payload) : w.report payload = (w.seen h, w.news? h) := by
  unfold Watch.report Watch.seen Watch.news?
  rw [hpayload]
  by_cases hlast : w.last = some payload
  · have hsame : w = { w with last := some payload } := by rw [← hlast]
    rw [if_pos hlast, ← hsame]
    simp [hlast, Option.filter_some]
  · rw [if_neg hlast]
    simp [hlast, Option.filter_some]

/-! ## One look at all watches -/

/-- The watches after a look at each on the host of its number. -/
def seen (hosts : Nat → Host) (n : Nat) (watches : List Watch) : List Watch :=
  (watches.zipIdx n).map fun x => x.1.seen (hosts x.2)

/-- What there is to report about them, in their order. -/
def news (hosts : Nat → Host) (n : Nat) (watches : List Watch) : List Bytes :=
  (watches.zipIdx n).filterMap fun x => x.1.news? (hosts x.2)

/-- Every state can be reported. -/
def Reported (hosts : Nat → Host) (watches : List Watch) (n : Nat) : Prop :=
  ∀ x ∈ watches.zipIdx n, (x.1.payload? (hosts x.2)).isSome = true

/-- Either all states can be reported, or there is a first watch with one
that cannot. -/
theorem reported_or_stuck (hosts : Nat → Host) : ∀ (watches : List Watch) (n : Nat),
    Reported hosts watches n
      ∨ ∃ before w after, watches = before ++ w :: after ∧ Reported hosts before n
        ∧ w.Unreportable (hosts (n + before.length))
  | [], _ => .inl (by simp [Reported])
  | w :: r, n => by
      cases hw : w.payload? (hosts n) with
      | none =>
          exact .inr ⟨[], w, r, rfl, by simp [Reported], Watch.payload?_eq_none_iff.mp hw⟩
      | some payload =>
          have hhead : (w.payload? (hosts n)).isSome = true := by rw [hw]; rfl
          rcases reported_or_stuck hosts r (n + 1) with hall | ⟨before, v, after, rfl, hbefore, hv⟩
          · exact .inl (List.forall_mem_cons.mpr ⟨hhead, hall⟩)
          · refine .inr ⟨w :: before, v, after, rfl,
              List.forall_mem_cons.mpr ⟨hhead, hbefore⟩, ?_⟩
            have hnumber : n + (w :: before).length = n + 1 + before.length := by
              rw [List.length_cons]
              omega
            rw [hnumber]
            exact hv

theorem reported_iff {hosts : Nat → Host} {watches : List Watch} : Reported hosts watches 0
    ↔ ∀ (n : Nat) (w : Watch), watches[n]? = some w → ¬ w.Unreportable (hosts n) := by
  simp only [Reported, Prod.forall, List.mem_zipIdx_iff_getElem?, ← Watch.payload?_eq_none_iff,
    ← Ne.eq_def, Option.ne_none_iff_isSome]
  exact ⟨fun h n w => h w n, fun h w n => h n w⟩

/-- A look goes on behind watches whose states can all be reported. -/
theorem look_append (hosts : Nat → Host) (rest : List Watch) :
    ∀ (before : List Watch) (n : Nat), Reported hosts before n →
        look hosts n (before ++ rest)
          = (seen hosts n before ++ (look hosts (n + before.length) rest).1,
            (look hosts (n + before.length) rest).2.map (news hosts n before ++ ·))
  | [], n, _ => by simp [seen, news]
  | w :: r, n, hreported => by
      obtain ⟨hw, hr⟩ := List.forall_mem_cons.mp hreported
      obtain ⟨payload, hpayload⟩ := Option.isSome_iff_exists.mp hw
      have ih := look_append hosts rest r (n + 1) hr
      have hlength : n + 1 + r.length = n + (w :: r).length := by
        rw [List.length_cons]
        omega
      rw [hlength] at ih
      have hnews : news hosts n (w :: r)
          = (w.news? (hosts n)).toList ++ news hosts (n + 1) r := by
        unfold news
        rw [List.zipIdx_cons, List.filterMap_cons]
        cases w.news? (hosts n) <;> rfl
      simp only [List.cons_append, look, hpayload, Watch.report_eq hpayload, ih, hnews,
        Option.map_map, Function.comp_def, List.append_assoc]
      rfl

theorem look_of_reported {hosts : Nat → Host} {watches : List Watch}
    (hreported : Reported hosts watches 0) :
    look hosts 0 watches = (seen hosts 0 watches, some (news hosts 0 watches)) := by
  have hlook := look_append hosts [] watches 0 hreported
  simpa [look] using hlook

theorem getElem?_seen (hosts : Nat → Host) (watches : List Watch) (n : Nat) :
    (seen hosts 0 watches)[n]? = watches[n]?.map (·.seen (hosts n)) := by
  simp [seen, Function.comp_def]

/-- A look changes neither paths nor kinds, also if it breaks off. -/
theorem look_watched (hosts : Nat → Host) : ∀ (watches : List Watch) (n : Nat),
    (look hosts n watches).1.map (fun w => (w.path, w.kinds))
      = watches.map fun w => (w.path, w.kinds)
  | [], _ => rfl
  | w :: r, n => by
      have ih := look_watched hosts r (n + 1)
      have hreport : ∀ payload, (w.report payload).1.path = w.path
          ∧ (w.report payload).1.kinds = w.kinds := by
        intro payload
        unfold Watch.report
        split <;> exact ⟨rfl, rfl⟩
      rw [look]
      cases w.payload? (hosts n) with
      | none => rfl
      | some payload => simp [ih, hreport payload]

/-! ## The parcels of a group -/

/-- The parcels of a group are numbered one after the other, and the
disposition of each says whether it is the last. -/
theorem parcels_getElem? (now : Instant) (round : UInt64) :
    ∀ (payloads : List Bytes) (minor : UInt64) (i : Nat),
      (parcels now round minor payloads)[i]?
        = payloads[i]?.map (parcel now round (minor + UInt64.ofNat (i + 1))
            (if i + 1 = payloads.length then .last else .part))
  | [], _, _ => rfl
  | [payload], _, 0 => rfl
  | [payload], _, i + 1 => rfl
  | payload :: next :: r, minor, 0 => by simp [parcels]
  | payload :: next :: r, minor, i + 1 => by
      have ih := parcels_getElem? now round (next :: r) (minor + 1) i
      have hnumber : minor + 1 + UInt64.ofNat (i + 1) = minor + UInt64.ofNat (i + 1 + 1) := by
        rw [UInt64.ofNat_add (i + 1) 1, UInt64.add_assoc, UInt64.add_comm 1]
        rfl
      rw [parcels, List.getElem?_cons_succ, ih, hnumber, List.getElem?_cons_succ]
      simp

theorem length_parcels (now : Instant) (round : UInt64) :
    ∀ (payloads : List Bytes) (minor : UInt64),
      (parcels now round minor payloads).length = payloads.length
  | [], _ => rfl
  | [_], _ => rfl
  | _ :: next :: r, minor => by
      rw [parcels, List.length_cons, length_parcels now round (next :: r)]
      rfl

namespace Poller

/-- What is watched, in the order in which it was added. -/
def watched (p : Poller) : List (Path × List AttributeKind) :=
  p.watches.map fun w => (w.path, w.kinds)

theorem poll_watched (p : Poller) (now : Instant) (hosts : Nat → Host) :
    (p.poll now hosts).1.watched = p.watched := by
  have hlook := look_watched hosts p.watches 0
  unfold poll watched
  split <;> rename_i heq <;> rw [heq] at hlook <;> exact hlook

/-- Every watched path is a text. -/
def Textual (p : Poller) : Prop := ∀ w ∈ p.watches, w.Textual

theorem textual_poll {p : Poller} (hp : p.Textual) (now : Instant) (hosts : Nat → Host) :
    (p.poll now hosts).1.Textual := by
  have htextual : ∀ {q : Poller}, q.Textual ↔ ∀ x ∈ q.watched, (Utf8.decode? x.1).isSome = true := by
    simp [Textual, watched, Watch.Textual]
  rw [htextual, poll_watched]
  exact htextual.mp hp

theorem textual_watch {p : Poller} (hp : p.Textual) {path : Path}
    (htext : (Utf8.decode? path).isSome = true) (kinds : List AttributeKind) :
    (p.watch path kinds).Textual := by
  intro w hw
  rcases List.mem_append.mp hw with hw | hw
  · exact hp w hw
  · obtain rfl := List.mem_singleton.mp hw
    exact htext

/-- Where every state can be reported, the new payloads are one group with
the next number. Where nothing is new nothing is counted. -/
theorem poll_of_reported {p : Poller} {hosts : Nat → Host} (h : Reported hosts p.watches 0)
    (now : Instant) : p.poll now hosts
      = (⟨seen hosts 0 p.watches,
          if news hosts 0 p.watches = [] then p.round else p.round + 1,
          p.minor + UInt64.ofNat (news hosts 0 p.watches).length⟩,
        some (parcels now (p.round + 1) p.minor (news hosts 0 p.watches))) := by
  unfold poll
  rw [look_of_reported h]
  cases news hosts 0 p.watches with
  | nil => simp [parcels]
  | cons payload r => rfl

/-- At a state that cannot be reported the pass breaks off, and counts
nothing. -/
theorem poll_of_stuck {p : Poller} {hosts : Nat → Host} {before after : List Watch} {w : Watch}
    (hwatches : p.watches = before ++ w :: after) (hbefore : Reported hosts before 0)
    (hw : w.Unreportable (hosts (0 + before.length))) (now : Instant) :
    p.poll now hosts = ({ p with watches := seen hosts 0 before ++ w :: after }, none) := by
  have hlook := look_append hosts (w :: after) before 0 hbefore
  rw [look, Watch.payload?_eq_none_iff.mpr hw, ← hwatches] at hlook
  unfold poll
  rw [hlook]
  rfl

end Poller

/-! ## Files to watch -/

/-- A host with nothing but files of these names in its root. -/
def filesAtRoot (names : List Bytes) : Host where
  files := names.foldl (fun fs name => fs.add [name] (.file FileSystem.newFile [])) .empty
  overlay := fun _ => none
  base := ⟨0, 0, 0, ⟨0, 0⟩, ⟨0, 0⟩, ⟨0, 0⟩⟩
  names := ⟨fun _ _ _ => .nothing⟩

end Conformance.FileWatch
