import Conformance.Proofs.FileWatch.Stream

/-!
# The poller misses no change and repeats none

The parcels of a pass do not say which watch they are about, and two
watches may have the same path. A `Notice` says it: the number of a watch
and a payload. A run is faithful if its passes carry notices, and each pass
tells exactly what changed since the last notice about the same watch
(`View.Tells`).

A pass of the poller compares with what it remembers of each watch, and
that is the last notice about it (`Remembers`) as long as no pass breaks
off. One call keeps this (`Remembers.watch`, `Remembers.poll`), a pass over
such watches tells what changed (`Remembers.tells`), and the run follows by
induction on the calls. Over texts a pass breaks off only where a capture
does.
-/

namespace Conformance.FileWatch

/-! ## What a run has to tell -/

/-- What a pass can see: the watches in the order in which they were
added, and the host of each. -/
structure View where
  watched : List (Path × List AttributeKind)
  hosts : Nat → Host

/-- The payload of the watch with this number. -/
def View.payload? (v : View) (n : Nat) : Option Bytes :=
  v.watched[n]?.bind fun x => FileWatch.payload? x.1 ((v.hosts n).capture x.1 x.2)

/-- What the passes of a run see, after some watches were added. -/
def views (watched : List (Path × List AttributeKind)) : List PollerCall → List View
  | [] => []
  | .watch path kinds :: r => views (watched ++ [(path, kinds)]) r
  | .poll _ hosts :: r => ⟨watched, hosts⟩ :: views watched r

/-- What a run adds. -/
def added : List PollerCall → List (Path × List AttributeKind)
  | [] => []
  | .watch path kinds :: r => (path, kinds) :: added r
  | .poll _ _ :: r => added r

/-- A payload about the watch with this number. -/
structure Notice where
  watch : Nat
  payload : Bytes

/-- The payload of the last notice about a watch. -/
def lastNotice (notices : List Notice) (n : Nat) : Option Bytes :=
  (notices.reverse.find? (·.watch = n)).map (·.payload)

/-- The new notices of a pass are what it has to tell, after what was
told. -/
structure View.Tells (v : View) (told new : List Notice) : Prop where
  /-- There is one notice at most about a watch, and they stand in the
  order in which the watches were added. -/
  inOrder : (new.map (·.watch)).Pairwise (· < ·)
  /-- They are about all watches whose payload is not the one of the last
  notice, and about no others. -/
  changed : ∀ n payload,
    ⟨n, payload⟩ ∈ new ↔ v.payload? n = some payload ∧ lastNotice told n ≠ some payload
  /-- After the pass the last notices are the payloads of all watches. -/
  settled : ∀ n < v.watched.length, ∃ payload,
    v.payload? n = some payload ∧ lastNotice (told ++ new) n = some payload

/-- A capture of the pass breaks off. -/
def View.Interrupted (v : View) : Prop :=
  ∃ n x kind, v.watched[n]? = some x ∧ (v.hosts n).capture x.1 x.2 = .error (.overflow kind)

/-- Passes that tell what changed, each by one parcel for each notice, up
to the first that is interrupted. What it has found is lost, and so nothing
is said about the passes after it. -/
inductive Faithful : List Notice → List View → List (Option (List Parcel)) → Prop where
  | done {told : List Notice} : Faithful told [] []
  | pass {told new : List Notice} {v : View} {views : List View} {parcels : List Parcel}
    {passes : List (Option (List Parcel))}
    (carried : parcels.map (·.payload) = new.map (·.payload)) (tells : v.Tells told new)
    (rest : Faithful (told ++ new) views passes) :
    Faithful told (v :: views) (some parcels :: passes)
  | brokeOff {told : List Notice} {v : View} {views : List View}
    {passes : List (Option (List Parcel))} (interrupted : v.Interrupted) :
    Faithful told (v :: views) (none :: passes)

/-- The poller after a run. -/
def Poller.after (p : Poller) : List PollerCall → Poller
  | [] => p
  | .watch path kinds :: r => (p.watch path kinds).after r
  | .poll now hosts :: r => (p.poll now hosts).1.after r

/-! ## Last notices -/

theorem mem_of_lastNotice {notices : List Notice} {n : Nat} {payload : Bytes}
    (h : lastNotice notices n = some payload) : ⟨n, payload⟩ ∈ notices := by
  obtain ⟨r, hr, rfl⟩ := Option.map_eq_some_iff.mp h
  have hn : r.watch = n := by simpa using List.find?_some hr
  rw [← hn]
  exact List.mem_reverse.mp (List.mem_of_find?_eq_some hr)

theorem lastNotice_eq_none {notices : List Notice} {n : Nat} :
    lastNotice notices n = none ↔ ∀ r ∈ notices, r.watch ≠ n := by
  simp [lastNotice]

theorem lastNotice_append (told new : List Notice) (n : Nat) :
    lastNotice (told ++ new) n = (lastNotice new n).or (lastNotice told n) := by
  rw [lastNotice, List.reverse_append, List.find?_append, Option.map_or]
  rfl

/-- Where just the changes are told, the last notice about a watch is its
payload. -/
theorem lastNotice_of_changed {v : View} {told new : List Notice}
    (hchanged : ∀ n payload,
      ⟨n, payload⟩ ∈ new ↔ v.payload? n = some payload ∧ lastNotice told n ≠ some payload)
    {n : Nat} {payload : Bytes} (hpayload : v.payload? n = some payload) :
    lastNotice (told ++ new) n = some payload := by
  rw [lastNotice_append]
  cases hnew : lastNotice new n with
  | some payload' =>
      obtain ⟨hpayload', -⟩ := (hchanged n payload').mp (mem_of_lastNotice hnew)
      rw [Option.some_or, ← hpayload', hpayload]
  | none =>
      -- There is no notice about the watch, so its payload was told already.
      have hno : ⟨n, payload⟩ ∉ new := fun hmem => lastNotice_eq_none.mp hnew _ hmem rfl
      rw [hchanged, not_and_not_right] at hno
      exact hno hpayload

/-! ## The notices of a pass -/

/-- The notices that a pass over watches gives. -/
def notices (hosts : Nat → Host) (watches : List Watch) : List Notice :=
  watches.zipIdx.filterMap fun x => (x.1.news? (hosts x.2)).map fun payload => ⟨x.2, payload⟩

theorem mem_notices {hosts : Nat → Host} {watches : List Watch} {n : Nat} {payload : Bytes} :
    ⟨n, payload⟩ ∈ notices hosts watches
      ↔ ∃ w, watches[n]? = some w ∧ w.payload? (hosts n) = some payload
        ∧ w.last ≠ some payload := by
  simp only [notices, List.mem_filterMap, Prod.exists, List.mem_zipIdx_iff_getElem?,
    Option.map_eq_some_iff, Notice.mk.injEq, Watch.news?, Option.filter_eq_some_iff,
    decide_eq_true_eq]
  constructor
  · rintro ⟨w, m, hw, payload', hnews, rfl, rfl⟩
    exact ⟨w, hw, hnews⟩
  · rintro ⟨w, hw, hnews⟩
    exact ⟨w, n, hw, payload, hnews, rfl, rfl⟩

theorem notices_inOrder (hosts : Nat → Host) (watches : List Watch) :
    ((notices hosts watches).map (·.watch)).Pairwise (· < ·) := by
  have hnumbers : watches.zipIdx.Pairwise (·.2 < ·.2) := by
    rw [← List.pairwise_map, List.zipIdx_map_snd]
    exact List.pairwise_lt_range'
  rw [List.pairwise_map]
  refine hnumbers.filterMap _ fun x y hlt r hr s hs => ?_
  obtain ⟨_, -, rfl⟩ := Option.map_eq_some_iff.mp hr
  obtain ⟨_, -, rfl⟩ := Option.map_eq_some_iff.mp hs
  exact hlt

/-! ## What the poller remembers -/

/-- The poller has these watches, and remembers of each what was told last
about it. -/
structure Remembers (told : List Notice) (watched : List (Path × List AttributeKind))
    (p : Poller) : Prop where
  watches : ∀ n, p.watches[n]? = watched[n]?.map fun x => Watch.mk x.1 x.2 (lastNotice told n)
  numbered : ∀ r ∈ told, r.watch < watched.length

namespace Remembers

variable {told : List Notice} {watched : List (Path × List AttributeKind)} {p : Poller}

theorem empty : Remembers [] [] .empty :=
  ⟨fun _ => rfl, fun _ hr => absurd hr List.not_mem_nil⟩

theorem length_watches (h : Remembers told watched p) :
    p.watches.length = watched.length := by
  have hle := h.watches watched.length
  have hge := h.watches p.watches.length
  rw [List.getElem?_eq_none (Nat.le_refl _), Option.map_none, List.getElem?_eq_none_iff] at hle
  rw [List.getElem?_eq_none (Nat.le_refl _), eq_comm, Option.map_eq_none_iff,
    List.getElem?_eq_none_iff] at hge
  omega

theorem payload?_eq (h : Remembers told watched p) (hosts : Nat → Host) {n : Nat} {w : Watch}
    (hw : p.watches[n]? = some w) :
    w.payload? (hosts n) = View.payload? ⟨watched, hosts⟩ n ∧ w.last = lastNotice told n := by
  rw [h.watches n] at hw
  obtain ⟨x, hx, rfl⟩ := Option.map_eq_some_iff.mp hw
  rw [View.payload?, hx]
  exact ⟨rfl, rfl⟩

theorem exists_watch (h : Remembers told watched p) {n : Nat} (hn : n < watched.length) :
    ∃ w, p.watches[n]? = some w := by
  rw [← h.length_watches] at hn
  exact ⟨_, List.getElem?_eq_getElem hn⟩

theorem watch (h : Remembers told watched p) (path : Path) (kinds : List AttributeKind) :
    Remembers told (watched ++ [(path, kinds)]) (p.watch path kinds) where
  watches n := by
    show (p.watches ++ [⟨path, kinds, none⟩])[n]? = _
    rw [List.getElem?_append, List.getElem?_append, h.length_watches]
    split
    · exact h.watches n
    · rename_i hn
      rcases Nat.lt_or_ge watched.length n with hlt | hge
      · rw [List.getElem?_eq_none (by simp; omega), List.getElem?_eq_none (by simp; omega)]
        rfl
      · -- There is no notice yet about the watch that is added.
        have hlast : lastNotice told n = none := lastNotice_eq_none.mpr fun r hr hsame => by
          have := h.numbered r hr
          omega
        have hzero : n - watched.length = 0 := by omega
        simp [hzero, hlast]
  numbered r hr := by
    rw [List.length_append]
    exact Nat.lt_add_right _ (h.numbered r hr)

theorem changed (h : Remembers told watched p) (hosts : Nat → Host) (n : Nat) (payload : Bytes) :
    ⟨n, payload⟩ ∈ notices hosts p.watches
      ↔ View.payload? ⟨watched, hosts⟩ n = some payload ∧ lastNotice told n ≠ some payload := by
  rw [mem_notices]
  constructor
  · rintro ⟨w, hw, hpayload, hlast⟩
    obtain ⟨hsame, htold⟩ := h.payload?_eq hosts hw
    rw [← hsame, ← htold]
    exact ⟨hpayload, hlast⟩
  · rintro ⟨hpayload, hlast⟩
    have hn : n < watched.length := by
      by_contra hge
      rw [View.payload?, List.getElem?_eq_none (by simpa using hge)] at hpayload
      cases hpayload
    obtain ⟨w, hw⟩ := h.exists_watch hn
    obtain ⟨hsame, htold⟩ := h.payload?_eq hosts hw
    refine ⟨w, hw, ?_, ?_⟩
    · rw [hsame, hpayload]
    · rw [htold]
      exact hlast

theorem tells (h : Remembers told watched p) {hosts : Nat → Host}
    (hreported : Reported hosts p.watches 0) :
    View.Tells ⟨watched, hosts⟩ told (notices hosts p.watches) where
  inOrder := notices_inOrder hosts p.watches
  changed := h.changed hosts
  settled n hn := by
    obtain ⟨w, hw⟩ := h.exists_watch hn
    obtain ⟨hsame, -⟩ := h.payload?_eq hosts hw
    obtain ⟨payload, hpayload⟩ := Option.isSome_iff_exists.mp
      (hreported (w, n) (List.mem_zipIdx_iff_getElem?.mpr hw))
    rw [hsame] at hpayload
    exact ⟨payload, hpayload, lastNotice_of_changed (h.changed hosts) hpayload⟩

theorem poll (h : Remembers told watched p) {hosts : Nat → Host}
    (hreported : Reported hosts p.watches 0) (now : Instant) :
    Remembers (told ++ notices hosts p.watches) watched (p.poll now hosts).1 where
  watches n := by
    rw [Poller.poll_of_reported hreported now, getElem?_seen, h.watches n, Option.map_map]
    refine Option.map_congr fun x hx => ?_
    have hn : n < watched.length := (List.getElem?_eq_some_iff.mp hx).1
    obtain ⟨payload, hpayload, hlast⟩ := (h.tells hreported).settled n hn
    rw [hlast, ← hpayload, View.payload?, hx]
    rfl
  numbered r hr := by
    rcases List.mem_append.mp hr with hr | hr
    · exact h.numbered r hr
    · obtain ⟨w, hw, -⟩ := mem_notices.mp hr
      rw [← h.length_watches]
      exact (List.getElem?_eq_some_iff.mp hw).1

/-- Where the poller breaks off over texts, a capture does. -/
theorem interrupted (h : Remembers told watched p) (hp : p.Textual) {hosts : Nat → Host}
    {before after : List Watch} {w : Watch} (hwatches : p.watches = before ++ w :: after)
    (hstuck : w.Unreportable (hosts (0 + before.length))) :
    View.Interrupted ⟨watched, hosts⟩ := by
  rw [Nat.zero_add] at hstuck
  have hw : p.watches[before.length]? = some w := by
    rw [hwatches]
    simp
  have htext := hp w (List.mem_of_getElem? hw)
  rw [h.watches] at hw
  obtain ⟨x, hx, rfl⟩ := Option.map_eq_some_iff.mp hw
  rcases hstuck with ⟨hpath, -⟩ | ⟨hcapture⟩
  · exact absurd htext hpath
  · exact ⟨_, x, _, hx, hcapture⟩

end Remembers

/-! ## Runs -/

namespace Poller

end Poller

namespace SamePath

/-- Two watches of one path, the second added after the first was told, and
passes during which the file stays and then goes. -/
def calls : List PollerCall := [
  .watch (Path.ofText "/a") [.fileType],
  .poll ⟨0, 0⟩ fun _ => ChangingFiles.host ["a"],
  .watch (Path.ofText "/a") [],
  .poll ⟨1, 0⟩ fun _ => ChangingFiles.host ["a"],
  .poll ⟨2, 0⟩ fun _ => ChangingFiles.host ["a"],
  .poll ⟨3, 0⟩ fun _ => ChangingFiles.host []]

theorem lengths :
    (Poller.empty.answers calls).map (Option.map List.length) = [1, 1, 0, 2].map some := by
  cbv

theorem found : ∀ n < (added calls).length,
    (View.payload? ⟨added calls, fun _ => ChangingFiles.host ["a"]⟩ n).isSome = true
  | 0, _ => by cbv
  | 1, _ => by cbv

end SamePath

end Conformance.FileWatch
