import Conformance.Proofs.Capture.Forms
import Conformance.Proofs.FileWatch.Passes

/-!
# States by their payloads

The poller compares payloads and never looks at a state again. That is
enough: for a watch whose path is a text, equal payloads come from states
that are `Alike`, and from no others (`Watch.payloads_tell_states`).

A payload is the text of a value whose numbers are whole, so the text tells
the value (`Json.text_inj`). The value has members by the sort of the state
(`Shows`), and no sort has the members of another; within the first sort
the form of the snapshot tells the snapshot (`Snapshot.json?_inj`), since
a capture gives attributes in order.
-/

namespace Conformance.FileWatch

/-- Two outcomes that are one state of a path. -/
inductive Alike : Except CaptureStop Snapshot → Except CaptureStop Snapshot → Prop where
  | present (s : Snapshot) : Alike (.ok s) (.ok s)
  | absent {f g : CaptureFault} (hf : f.isNotFound = true) (hg : g.isNotFound = true) :
    Alike (.error (.fault f)) (.error (.fault g))
  | failed {f g : CaptureFault} (hf : f.isNotFound = false) (hg : g.isNotFound = false)
    (hmessage : f.message = g.message) : Alike (.error (.fault f)) (.error (.fault g))

/-- The members that show an outcome, besides the path. -/
inductive Shows : Except CaptureStop Snapshot → List (String × Json) → Prop where
  | present {s : Snapshot} {form : Json} (hform : s.json? = some form) :
    Shows (.ok s) [("exists", .bool true), ("snapshot", form)]
  | absent {f : CaptureFault} (hf : f.isNotFound = true) :
    Shows (.error (.fault f)) [("exists", .bool false)]
  | failed {f : CaptureFault} (hf : f.isNotFound = false) :
    Shows (.error (.fault f)) [("error", .str f.message)]

variable {path : Path} {o o' : Except CaptureStop Snapshot} {ms ms' : List (String × Json)}

/-- The value that a payload is the text of. -/
def shown (path : Path) (ms : List (String × Json)) : Json :=
  .object (("path", .str (Path.text path)) :: ms)

theorem payload?_eq_some {payload : Bytes} : payload? path o = some payload
    ↔ ∃ ms, Shows o ms ∧ Utf8.encode (shown path ms).text = payload := by
  unfold payload?
  constructor
  · intro h
    obtain ⟨ms, hms, rfl⟩ := Option.map_eq_some_iff.mp h
    refine ⟨ms, ?_, rfl⟩
    rcases o with (f | kind) | s
    · dsimp only at hms
      split at hms
      case isTrue hf =>
        cases hms
        exact .absent hf
      case isFalse hf =>
        cases hms
        exact .failed (Bool.eq_false_iff.mpr hf)
    · cases hms
    · obtain ⟨form, hform, rfl⟩ := Option.map_eq_some_iff.mp hms
      exact .present hform
  · rintro ⟨ms, hshows, rfl⟩
    cases hshows with
    | present hform => simp [hform, shown]
    | absent hf => simp [hf, shown]
    | failed hf => simp [hf, shown]

theorem Shows.isWhole (h : Shows o ms) : (shown path ms).IsWhole := by
  refine .object (List.forall_mem_cons.mpr ⟨.str _, ?_⟩)
  cases h with
  | present hform => simp [Json.IsWhole.bool, Snapshot.json?_whole hform]
  | absent => simp [Json.IsWhole.bool]
  | failed => simp [Json.IsWhole.str]

/-- The members tell the state, if the attributes of snapshots are in
order. -/
theorem Shows.alike (h : Shows o ms) (h' : Shows o' ms') (heq : shown path ms = shown path ms')
    (hordered : ∀ s, o = .ok s ∨ o' = .ok s → s.attributes.Pairwise (·.kind.rank < ·.kind.rank)) :
    Alike o o' := by
  have hexists := Json.get?_congr heq "exists"
  have hsnapshot := Json.get?_congr heq "snapshot"
  have herror := Json.get?_congr heq "error"
  cases h <;> cases h' <;> simp [Association.lookup_cons] at hexists hsnapshot herror
  case present.present s form hform t form' hform' =>
    subst hsnapshot
    obtain rfl := Snapshot.json?_inj (hordered s (.inl rfl)) (hordered t (.inr rfl)) hform hform'
    exact .present s
  case absent.absent hf _ hg => exact .absent hf hg
  case failed.failed hf _ hg => exact .failed hf hg herror

theorem Alike.payload?_eq (h : Alike o o') : payload? path o = payload? path o' := by
  cases h with
  | present s => rfl
  | absent hf hg => simp [payload?, hf, hg]
  | failed hf hg hmessage => simp [payload?, hf, hg, hmessage]

theorem alike_of_payload? {h h' : Host} {kinds : List AttributeKind} {payload : Bytes}
    (hpayload : payload? path (h.capture path kinds) = some payload)
    (hpayload' : payload? path (h'.capture path kinds) = some payload) :
    Alike (h.capture path kinds) (h'.capture path kinds) := by
  obtain ⟨ms, hshows, hbytes⟩ := payload?_eq_some.mp hpayload
  obtain ⟨ms', hshows', hbytes'⟩ := payload?_eq_some.mp hpayload'
  have htext : (shown path ms).text = (shown path ms').text :=
    Utf8.encode_inj (hbytes.trans hbytes'.symm)
  refine hshows.alike hshows' (Json.text_inj hshows.isWhole hshows'.isWhole htext) ?_
  rintro s (hs | hs)
  · exact Host.ordered_of_capture hs
  · exact Host.ordered_of_capture hs

/-- **Different states have different payloads.** Every state of a watch
over a text has a payload, unless its capture breaks off, and those of two
states are equal just if both are the same snapshot, or both say that the
file is not there, or both fail for another reason with the same text. So
no change of an attribute that was asked for is hidden. -/
theorem Watch.payloads_tell_states {w : Watch} (hw : w.Textual) :
    (∀ h, (∃ payload, w.payload? h = some payload)
        ↔ ∀ kind, h.capture w.path w.kinds ≠ .error (.overflow kind))
      ∧ ∀ h h' payload payload', w.payload? h = some payload → w.payload? h' = some payload' →
        (payload = payload' ↔ Alike (h.capture w.path w.kinds) (h'.capture w.path w.kinds))
          ∧ ∀ s t, h.capture w.path w.kinds = .ok s → h'.capture w.path w.kinds = .ok t →
            ∀ k ∈ w.kinds, s.get? k ≠ t.get? k → payload ≠ payload' := by
  constructor
  · intro h
    rw [← Option.ne_none_iff_exists', Ne, payload?_eq_none_of_textual hw, not_exists]
  · intro h h' payload payload' hpayload hpayload'
    have hiff : payload = payload'
        ↔ Alike (h.capture w.path w.kinds) (h'.capture w.path w.kinds) := by
      constructor
      · rintro rfl
        exact alike_of_payload? hpayload hpayload'
      · intro halike
        have heq : w.payload? h = w.payload? h' := halike.payload?_eq
        rw [hpayload, hpayload'] at heq
        exact Option.some.inj heq
    refine ⟨hiff, fun s t hs ht k _ hchanged heq => ?_⟩
    have halike := hiff.mp heq
    rw [hs, ht] at halike
    cases halike
    exact hchanged rfl

namespace ChangedMode

/-- A host on which every path is a file of this mode. -/
def host (mode : UInt32) : Host where
  files := .empty
  overlay := fun _ => some (.stands ⟨mode, 0, 0, ⟨0, 0⟩, ⟨0, 0⟩, ⟨0, 0⟩⟩ (.done []))
  base := ⟨0, 0, 0, ⟨0, 0⟩, ⟨0, 0⟩, ⟨0, 0⟩⟩
  names := ⟨fun _ _ _ => .nothing⟩

def watch : Watch := ⟨Path.ofText "/a", [.permissions, .fileType], none⟩

theorem capture_eq : (host 0o100644).capture watch.path watch.kinds
    = .ok ⟨watch.path, [.fileType .regular, .permissions ⟨0o644⟩]⟩ := by
  cbv

theorem capture_eq' : (host 0o100600).capture watch.path watch.kinds
    = .ok ⟨watch.path, [.fileType .regular, .permissions ⟨0o600⟩]⟩ := by
  cbv

end ChangedMode

theorem Watch.payloads_tell_states_mode : ∃ payload payload',
    ChangedMode.watch.payload? (ChangedMode.host 0o100644) = some payload
      ∧ ChangedMode.watch.payload? (ChangedMode.host 0o100600) = some payload'
      ∧ payload ≠ payload' := by
  have htext : ChangedMode.watch.Textual := by
    rw [Watch.Textual, ChangedMode.watch, Path.ofText, Utf8.decode?_encode]
    rfl
  obtain ⟨hsome, htell⟩ := Watch.payloads_tell_states htext
  obtain ⟨payload, hpayload⟩ := (hsome (ChangedMode.host 0o100644)).mpr fun kind => by
    simp [ChangedMode.capture_eq]
  obtain ⟨payload', hpayload'⟩ := (hsome (ChangedMode.host 0o100600)).mpr fun kind => by
    simp [ChangedMode.capture_eq']
  exact ⟨payload, payload', hpayload, hpayload', (htell _ _ _ _ hpayload hpayload').2 _ _
    ChangedMode.capture_eq ChangedMode.capture_eq' .permissions (by simp [ChangedMode.watch])
    (by decide)⟩

end Conformance.FileWatch
