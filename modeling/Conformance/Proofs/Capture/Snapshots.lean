import Mathlib
import Conformance.Capture
import Conformance.Proofs.Traversal

/-!
# Snapshots of what was asked for

A capture reads one status, and from it every kind by itself
(`Host.capture_eq_ok`). So what a snapshot holds of a kind depends on
whether the kind was asked for, and on nothing else that was asked for
(`Host.get?_of_capture`); a capture succeeds just if every kind by itself
can be read (`Host.exists_capture_iff`), and from these two follows how
the snapshots of different requests are related
(`Host.capture_of_asked`).
-/

namespace Conformance

/-! ## The order of kinds -/

namespace AttributeKind

theorem mem_all (k : AttributeKind) : k ∈ all := by
  cases k with
  | fileType | permissions | acl => decide
  | identity kind => cases kind <;> decide
  | timestamp kind => cases kind <;> decide

theorem all_ordered : all.Pairwise (·.rank < ·.rank) := by
  decide

theorem rank_inj {a b : AttributeKind} : a.rank = b.rank ↔ a = b := by
  refine ⟨fun h => ?_, congrArg rank⟩
  have hdiffer : ∀ x ∈ all, ∀ y ∈ all, x.rank = y.rank → x = y := by decide
  exact hdiffer a (mem_all a) b (mem_all b) h

theorem name_inj {a b : AttributeKind} (h : a.name = b.name) : a = b := by
  have hdiffer : ∀ x ∈ all, ∀ y ∈ all, x.name = y.name → x = y := by decide
  exact hdiffer a (mem_all a) b (mem_all b) h

theorem ofName_eq_some {text : String} {k : AttributeKind} :
    (ofName text).toOption = some k ↔ k.name = text := by
  have hfound : (ofName text).toOption = all.find? fun k => k.name = text := by
    unfold ofName
    cases all.find? fun k => k.name = text <;> rfl
  rw [hfound]
  constructor
  · intro h
    simpa using List.find?_some h
  · intro hname
    have hsome : (all.find? fun k => k.name = text).isSome := by
      rw [List.find?_isSome]
      exact ⟨k, mem_all k, by simpa using hname⟩
    obtain ⟨l, hl⟩ := Option.isSome_iff_exists.mp hsome
    have hlname : l.name = text := by simpa using List.find?_some hl
    rw [hl, name_inj (hlname.trans hname.symm)]

theorem mem_inOrder {kinds : List AttributeKind} {k : AttributeKind} :
    k ∈ inOrder kinds ↔ k ∈ kinds := by
  simp [inOrder, mem_all]

theorem inOrder_ordered (kinds : List AttributeKind) :
    (inOrder kinds).Pairwise (·.rank < ·.rank) :=
  all_ordered.sublist List.filter_sublist

end AttributeKind

/-! ## Attributes in order -/

namespace Snapshot

/-- An attribute behind all others is put at the end. -/
theorem insert_behind {a : Attribute} : ∀ {as : List Attribute},
    (∀ b ∈ as, b.kind.rank < a.kind.rank) → insert a as = as ++ [a]
  | [], _ => rfl
  | b :: r, h => by
      obtain ⟨hb, hr⟩ := List.forall_mem_cons.mp h
      have hne : a.kind ≠ b.kind := fun heq => by
        rw [heq] at hb
        exact Nat.lt_irrefl _ hb
      rw [insert, if_neg hne, if_neg (Nat.lt_asymm hb), insert_behind hr]
      rfl

theorem foldl_insert_ordered : ∀ (as before : List Attribute),
    (before ++ as).Pairwise (·.kind.rank < ·.kind.rank) →
      as.foldl (fun acc a => insert a acc) before = before ++ as
  | [], before, _ => by simp
  | a :: r, before, h => by
      have hbehind : ∀ b ∈ before, b.kind.rank < a.kind.rank := fun b hb =>
        (List.pairwise_append.mp h).2.2 b hb a (List.mem_cons_self ..)
      rw [List.foldl_cons, insert_behind hbehind, foldl_insert_ordered r _ (by simpa using h)]
      simp

/-- Attributes that are in order already stay as they are. -/
theorem of_ordered (path : Bytes) {as : List Attribute}
    (h : as.Pairwise (·.kind.rank < ·.kind.rank)) : of path as = ⟨path, as⟩ := by
  rw [of, foldl_insert_ordered as [] (by simpa using h)]
  rfl

end Snapshot

/-! ## Reading kinds -/

namespace Capture

variable {h : Host} {path : Path} {status : Status}

theorem read_timestamp {kind : TimestampKind} : read h path status (.timestamp kind)
    = match (status.time kind).millis? with
      | some millis => .ok (.timestamp ⟨kind, millis⟩)
      | none => .error (.overflow kind) := rfl

theorem kind_of_read {k : AttributeKind} {a : Attribute} (ha : read h path status k = .ok a) :
    a.kind = k := by
  cases k with
  | fileType | permissions =>
      cases ha
      rfl
  | timestamp kind =>
      rw [read_timestamp] at ha
      split at ha <;> cases ha
      rfl
  | identity kind =>
      rw [read, Result.mapError_eq_ok, Result.map_eq_ok] at ha
      obtain ⟨owner, howner, rfl⟩ := ha
      unfold identity at howner
      split at howner
      · cases howner
      · cases howner
      · cases howner
        rfl
  | acl =>
      rw [read, Result.mapError_eq_ok, Result.map_eq_ok] at ha
      obtain ⟨entries, -, rfl⟩ := ha
      rfl

theorem readAll_eq_mapM : ∀ ks : List AttributeKind,
    readAll h path status ks = ks.mapM (read h path status)
  | [] => rfl
  | k :: r => by
      rw [readAll, List.mapM_cons, readAll_eq_mapM r]
      cases read h path status k with
      | error fault => rfl
      | ok a => cases r.mapM (read h path status) <;> rfl

theorem readAll_eq_ok {ks : List AttributeKind} {as : List Attribute} :
    readAll h path status ks = .ok as
      ↔ List.Forall₂ (fun k a => read h path status k = .ok a) ks as := by
  rw [readAll_eq_mapM, Result.mapM_eq_ok]

/-- Several kinds end a capture as the first of them does that cannot be
read. -/
theorem readAll_eq_error_iff {kinds : List AttributeKind} {stop : CaptureStop} :
    readAll h path status (AttributeKind.inOrder kinds) = .error stop
      ↔ ∃ k ∈ kinds, read h path status k = .error stop
        ∧ ∀ k' ∈ kinds, k'.rank < k.rank → ∃ a, read h path status k' = .ok a := by
  rw [readAll_eq_mapM, Result.mapM_eq_error,
    exists_split_iff (AttributeKind.inOrder_ordered kinds)]
  simp only [AttributeKind.mem_inOrder]

theorem map_kind_of_readAll {ks : List AttributeKind} {as : List Attribute}
    (has : List.Forall₂ (fun k a => read h path status k = .ok a) ks as) :
    as.map Attribute.kind = ks := by
  induction has with
  | nil => rfl
  | cons ha _ ih => rw [List.map_cons, kind_of_read ha, ih]

theorem ordered_of_readAll {kinds : List AttributeKind} {as : List Attribute}
    (has : List.Forall₂ (fun k a => read h path status k = .ok a)
      (AttributeKind.inOrder kinds) as) : as.Pairwise (·.kind.rank < ·.kind.rank) := by
  have hkinds := AttributeKind.inOrder_ordered kinds
  rw [← map_kind_of_readAll has, List.pairwise_map] at hkinds
  exact hkinds

/-- What is found of a kind is what was read of it, wherever it stands. -/
theorem find?_of_readAll {ks : List AttributeKind} {as : List Attribute}
    (has : List.Forall₂ (fun k a => read h path status k = .ok a) ks as) (k : AttributeKind) :
    as.find? (fun a => a.kind = k)
      = if k ∈ ks then (read h path status k).toOption else none := by
  induction has with
  | nil => rfl
  | @cons k' a ks as ha _ ih =>
      rw [List.find?_cons, kind_of_read ha]
      by_cases hk : k' = k
      · subst hk
        simp [ha, Except.toOption]
      · simp [hk, Ne.symm hk, ih]

end Capture

/-! ## Snapshots -/

namespace Host

variable {h : Host} {path : Path} {kinds : List AttributeKind} {s : Snapshot}

/-- **Captures.** A snapshot is what reading each kind by itself gives,
all from one status. -/
theorem capture_eq_ok : h.capture path kinds = .ok s ↔
    ∃ status, h.status false path = .ok status ∧ s.path = path
      ∧ List.Forall₂ (fun k a => Capture.read h path status k = .ok a)
          (AttributeKind.inOrder kinds) s.attributes := by
  unfold capture
  cases hstatus : h.status false path with
  | error fault => simp
  | ok status =>
      simp only [Result.map_eq_ok, Except.ok.injEq, exists_eq_left', Capture.readAll_eq_ok]
      have hof : ∀ {as}, List.Forall₂ (fun k a => Capture.read h path status k = .ok a)
          (AttributeKind.inOrder kinds) as → Snapshot.of path as = ⟨path, as⟩ :=
        fun has => Snapshot.of_ordered path (Capture.ordered_of_readAll has)
      constructor
      · rintro ⟨as, has, rfl⟩
        rw [hof has]
        exact ⟨rfl, has⟩
      · rintro ⟨rfl, has⟩
        exact ⟨s.attributes, has, hof has⟩

theorem path_of_capture (hs : h.capture path kinds = .ok s) : s.path = path := by
  obtain ⟨_, -, hpath, -⟩ := capture_eq_ok.mp hs
  exact hpath

theorem ordered_of_capture (hs : h.capture path kinds = .ok s) :
    s.attributes.Pairwise (·.kind.rank < ·.kind.rank) := by
  obtain ⟨_, -, -, has⟩ := capture_eq_ok.mp hs
  exact Capture.ordered_of_readAll has

theorem kinds_of_capture (hs : h.capture path kinds = .ok s) :
    s.kinds = AttributeKind.inOrder kinds := by
  obtain ⟨_, -, -, has⟩ := capture_eq_ok.mp hs
  exact Capture.map_kind_of_readAll has

/-- What a snapshot holds of a kind is what reading the kind gives. -/
theorem get?_of_capture (hs : h.capture path kinds = .ok s) {status : Status}
    (hstatus : h.status false path = .ok status) (k : AttributeKind) :
    s.get? k = if k ∈ kinds then (Capture.read h path status k).toOption else none := by
  obtain ⟨status', hstatus', -, has⟩ := capture_eq_ok.mp hs
  obtain rfl := Except.ok.inj (hstatus.symm.trans hstatus')
  simpa only [Snapshot.get?, AttributeKind.mem_inOrder] using Capture.find?_of_readAll has k

theorem exists_get?_of_capture (hs : h.capture path kinds = .ok s) {k : AttributeKind}
    (hk : k ∈ kinds) : ∃ a, s.get? k = some a ∧ a.kind = k := by
  have hmem : k ∈ s.kinds := by
    rw [kinds_of_capture hs]
    exact AttributeKind.mem_inOrder.mpr hk
  obtain ⟨a, ha, hkind⟩ := List.mem_map.mp hmem
  have hfound : (s.get? k).isSome := by
    rw [Snapshot.get?, List.find?_isSome]
    exact ⟨a, ha, by simpa using hkind⟩
  obtain ⟨b, hb⟩ := Option.isSome_iff_exists.mp hfound
  exact ⟨b, hb, by simpa using List.find?_some hb⟩

/-- A capture succeeds just if each of its kinds can be read. -/
theorem exists_capture_iff : (∃ s, h.capture path kinds = .ok s) ↔
    ∃ status, h.status false path = .ok status
      ∧ ∀ k ∈ kinds, ∃ a, Capture.read h path status k = .ok a := by
  constructor
  · rintro ⟨s, hs⟩
    obtain ⟨status, hstatus, -, has⟩ := capture_eq_ok.mp hs
    refine ⟨status, hstatus, fun k hk => ?_⟩
    obtain ⟨a, ha, -⟩ := exists_get?_of_capture hs hk
    rw [get?_of_capture hs hstatus, if_pos hk] at ha
    exact ⟨a, Result.toOption_eq_some.mp ha⟩
  · rintro ⟨status, hstatus, hread⟩
    obtain ⟨as, has⟩ := Result.exists_mapM_iff.mpr fun k hk =>
      hread k (AttributeKind.mem_inOrder.mp hk)
    exact ⟨⟨path, as⟩, capture_eq_ok.mpr ⟨status, hstatus, rfl, Result.mapM_eq_ok.mp has⟩⟩

/-- **What was asked for.** A snapshot holds exactly the kinds that were
asked for, in order, and of each kind an attribute of that kind. Where
some kinds can be captured, so can every part of them, and the part says
the same; and where two requests can be answered, so can both in one. -/
theorem capture_of_asked (h : Host) (path : Path) :
    (∀ kinds s, h.capture path kinds = .ok s →
      (∀ k, k ∈ s.kinds ↔ k ∈ kinds)
        ∧ (∀ k ∈ kinds, ∃ a, s.get? k = some a ∧ a.kind = k)
        ∧ s.attributes.Pairwise (·.kind.rank < ·.kind.rank)
        ∧ ∀ part, part ⊆ kinds → ∃ t, h.capture path part = .ok t
          ∧ ∀ k ∈ part, t.get? k = s.get? k)
      ∧ ∀ one two s t, h.capture path one = .ok s → h.capture path two = .ok t →
        ∀ both, (∀ k, k ∈ both ↔ k ∈ one ∨ k ∈ two) → ∃ u, h.capture path both = .ok u
          ∧ (∀ k ∈ one, u.get? k = s.get? k) ∧ ∀ k ∈ two, u.get? k = t.get? k := by
  constructor
  · intro kinds s hs
    refine ⟨fun k => ?_, fun k hk => exists_get?_of_capture hs hk, ?_, fun part hpart => ?_⟩
    · rw [kinds_of_capture hs, AttributeKind.mem_inOrder]
    · obtain ⟨_, -, -, has⟩ := capture_eq_ok.mp hs
      exact Capture.ordered_of_readAll has
    · obtain ⟨status, hstatus, hread⟩ := exists_capture_iff.mp ⟨s, hs⟩
      obtain ⟨t, ht⟩ := exists_capture_iff.mpr ⟨status, hstatus, fun k hk => hread k (hpart hk)⟩
      refine ⟨t, ht, fun k hk => ?_⟩
      rw [get?_of_capture ht hstatus, get?_of_capture hs hstatus, if_pos hk, if_pos (hpart hk)]
  · intro one two s t hs ht both hboth
    obtain ⟨status, hstatus, hone⟩ := exists_capture_iff.mp ⟨s, hs⟩
    obtain ⟨status', hstatus', htwo⟩ := exists_capture_iff.mp ⟨t, ht⟩
    obtain rfl := Except.ok.inj (hstatus.symm.trans hstatus')
    obtain ⟨u, hu⟩ := exists_capture_iff.mpr ⟨status, hstatus, fun k hk =>
      ((hboth k).mp hk).elim (hone k) (htwo k)⟩
    refine ⟨u, hu, fun k hk => ?_, fun k hk => ?_⟩
    · rw [get?_of_capture hu hstatus, get?_of_capture hs hstatus, if_pos hk,
        if_pos ((hboth k).mpr (.inl hk))]
    · rw [get?_of_capture hu hstatus, get?_of_capture ht hstatus, if_pos hk,
        if_pos ((hboth k).mpr (.inr hk))]

end Host

namespace UnknownGroup

/-- A service that knows one user and no group. -/
def names : NameService where
  lookup kind id _ := if kind = .user ∧ id = 1000 then .found (Utf8.encode "alice") else .nothing

/-- A list that had grown when it was read. -/
def reading : Acl.Reading := .grew (.done [2, 0, 0, 0,
  1, 0, 6, 0, 0xFF, 0xFF, 0xFF, 0xFF, 2, 0, 4, 0, 0xE8, 3, 0, 0])

def status : Status := ⟨0o100640, 1000, 50, ⟨0, 0⟩, ⟨-1, 500000000⟩, ⟨1700000000, 0⟩⟩

/-- A host on which every path is a file of that user and of some group. -/
def host : Host := ⟨.empty, fun _ => some (.stands status reading), status, names⟩

def file : Path := Path.ofText "/w/f"

def owner : Attribute := .identity ⟨.user, 1000, "alice"⟩

def list : Attribute := .acl [⟨.userObj, none, ⟨6⟩⟩, ⟨.user, some ⟨1000, "alice"⟩, ⟨4⟩⟩]

def time : Attribute := .timestamp ⟨.modify, -500⟩

theorem capture_eq : host.capture file [.acl, .identity .user] = .ok ⟨file, [owner, list]⟩ := by
  cbv

theorem capture_time : host.capture file [.timestamp .modify] = .ok ⟨file, [time]⟩ := by
  cbv

end UnknownGroup

/-- The list alone, and the list and the owner with one of the times. -/
theorem Host.capture_of_asked_unknownGroup :
    UnknownGroup.host.capture UnknownGroup.file [.acl, .identity .user]
        = .ok ⟨UnknownGroup.file, [UnknownGroup.owner, UnknownGroup.list]⟩
      ∧ (∃ t, UnknownGroup.host.capture UnknownGroup.file [.acl] = .ok t
        ∧ t.get? .acl = some UnknownGroup.list)
      ∧ ∃ u, UnknownGroup.host.capture UnknownGroup.file
          [.timestamp .modify, .acl, .identity .user] = .ok u
        ∧ u.get? .acl = some UnknownGroup.list
        ∧ u.get? (.timestamp .modify) = some UnknownGroup.time := by
  obtain ⟨hparts, hboth⟩ := Host.capture_of_asked UnknownGroup.host UnknownGroup.file
  obtain ⟨-, -, -, hpart⟩ := hparts _ _ UnknownGroup.capture_eq
  obtain ⟨t, ht, hagree⟩ := hpart [.acl] (by simp)
  obtain ⟨u, hu, hone, htwo⟩ := hboth _ _ _ _ UnknownGroup.capture_eq UnknownGroup.capture_time
    [.timestamp .modify, .acl, .identity .user] (by simp; tauto)
  exact ⟨UnknownGroup.capture_eq, ⟨t, ht, hagree _ (by simp)⟩, u, hu, hone _ (by simp),
    htwo _ (by simp)⟩

/-- The group alone cannot be captured. -/
example : UnknownGroup.host.capture UnknownGroup.file [.identity .group]
    = .error (.fault (.unresolved UnknownGroup.file .group 50)) := by
  cbv

end Conformance
