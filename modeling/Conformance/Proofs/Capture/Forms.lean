import Conformance.Proofs.Capture.Snapshots
import Conformance.Proofs.Json.Texts
import Conformance.Proofs.Text.Flags
import Conformance.Proofs.Text.Utf8

/-!
# Snapshots by their JSON form

The JSON form of a snapshot tells the snapshot (`Snapshot.json?_inj`), if
its attributes are in order, as those of a capture are. The form is an
object, so it does not tell in which order attributes were given and keeps
one attribute for each name; but attributes in order have kinds that
differ, and kinds that differ have other names.

Nothing is asked of the attributes themselves: their forms tell them, with
any permission bits, any ids and any names.
-/

namespace Conformance

/-! ## Names -/

theorem eq_of_lookup {α : Type} (names : List (String × α)) {name : α → String}
    (hnames : ∀ a, names.lookup (name a) = some a) {a b : α} (h : name a = name b) : a = b := by
  have ha := hnames a
  rw [h, hnames b] at ha
  exact (Option.some.inj ha).symm

theorem FileType.name_inj {a b : FileType} (h : a.name = b.name) : a = b :=
  eq_of_lookup FileType.names (fun a => by cases a <;> rfl) h

theorem IdentityKind.name_inj {a b : IdentityKind} (h : a.name = b.name) : a = b :=
  eq_of_lookup IdentityKind.names (fun a => by cases a <;> rfl) h

theorem TimestampKind.name_inj {a b : TimestampKind} (h : a.name = b.name) : a = b :=
  eq_of_lookup TimestampKind.names (fun a => by cases a <;> rfl) h

theorem AclTag.name_inj {a b : AclTag} (h : a.name = b.name) : a = b :=
  eq_of_lookup AclTag.names (fun a => by cases a <;> rfl) h

/-! ## Attributes -/

theorem AclEntry.json_inj {d e : AclEntry} (h : d.json = e.json) : d = e := by
  have hkey := Json.get?_congr h
  have htag := hkey "tag"
  have hqualifier := hkey "qualifier"
  have hperms := hkey "perms"
  rcases d with ⟨tag, _ | ⟨id, name⟩, perms⟩ <;> rcases e with ⟨tag', _ | ⟨id', name'⟩, perms'⟩ <;>
    simp [Association.lookup_cons] at htag hqualifier hperms
  · rw [AclTag.name_inj htag, AclPerms.flagText_inj hperms]
  · have hid := Json.get?_congr hqualifier "id"
    have hname := Json.get?_congr hqualifier "name"
    simp [Association.lookup_cons, Json.nat] at hid hname
    rw [AclTag.name_inj htag, AclPerms.flagText_inj hperms, hid, hname]

theorem Identity.json_inj {a b : Identity}
    (h : (Attribute.identity a).valueJson = (Attribute.identity b).valueJson) : a = b := by
  have hkind := Json.get?_congr h "kind"
  have hid := Json.get?_congr h "id"
  have hname := Json.get?_congr h "name"
  simp [Association.lookup_cons, Json.nat] at hkind hid hname
  cases a
  cases b
  rw [Identity.mk.injEq]
  exact ⟨IdentityKind.name_inj hkind, hid, hname⟩

theorem Timestamp.json_inj {a b : Timestamp}
    (h : (Attribute.timestamp a).valueJson = (Attribute.timestamp b).valueJson) : a = b := by
  have hkind := Json.get?_congr h "kind"
  have hmillis := Json.get?_congr h "millis"
  simp [Association.lookup_cons] at hkind hmillis
  cases a
  cases b
  rw [Timestamp.mk.injEq]
  exact ⟨TimestampKind.name_inj hkind, hmillis⟩

theorem Attribute.valueJson_inj {a b : Attribute} (hword : a.word = b.word)
    (h : a.valueJson = b.valueJson) : a = b := by
  cases a with
  | fileType type =>
      cases b with
      | fileType type' => rw [FileType.name_inj (Json.str.inj h)]
      | _ => simp [word] at hword
  | permissions perms =>
      cases b with
      | permissions perms' => rw [Permissions.flagText_inj (Json.str.inj h)]
      | _ => simp [word] at hword
  | identity owner =>
      cases b with
      | identity owner' => rw [Identity.json_inj h]
      | _ => simp [word] at hword
  | timestamp time =>
      cases b with
      | timestamp time' => rw [Timestamp.json_inj h]
      | _ => simp [word] at hword
  | acl entries =>
      cases b with
      | acl entries' =>
          rw [(List.map_inj_right fun _ _ => AclEntry.json_inj).mp (Json.arr.inj h)]
      | _ => simp [word] at hword

theorem Attribute.json_inj {a b : Attribute} (h : a.json = b.json) : a = b := by
  have hkind := Json.get?_congr h "kind"
  have hvalue := Json.get?_congr h "value"
  simp [Association.lookup_cons] at hkind hvalue
  exact valueJson_inj hkind hvalue

theorem AclEntry.json_whole (e : AclEntry) : e.json.IsWhole := by
  refine .object ?_
  rcases e with ⟨tag, _ | ⟨id, name⟩, perms⟩
  · simp [Json.IsWhole.str]
  · have hqualifier : (Json.object [("id", .nat id), ("name", .str name)]).IsWhole :=
      .object (by simp [Json.IsWhole.str, Json.nat, Json.IsWhole.int])
    simp [Json.IsWhole.str, hqualifier]

theorem Attribute.valueJson_whole (a : Attribute) : a.valueJson.IsWhole := by
  cases a with
  | fileType type => exact .str _
  | permissions perms => exact .str _
  | identity owner => exact .object (by simp [Json.IsWhole.str, Json.nat, Json.IsWhole.int])
  | timestamp time => exact .object (by simp [Json.IsWhole.str, Json.IsWhole.int])
  | acl entries => exact .arr (by simp [AclEntry.json_whole])

theorem Attribute.json_whole (a : Attribute) : a.json.IsWhole :=
  .object (by simp [Json.IsWhole.str, valueJson_whole])

/-! ## Snapshots -/

namespace Snapshot

/-- The attributes of a snapshot under their names. -/
def members (s : Snapshot) : List (String × Json) :=
  s.attributes.map fun a => (a.kind.name, a.json)

theorem json?_eq_some {s : Snapshot} {form : Json} : s.json? = some form ↔
    ∃ path, Utf8.encode path = s.path
      ∧ Json.object [("path", .str path), ("attributes", Json.object s.members)] = form := by
  simp [json?, members, Utf8.decode?_eq_some]

theorem json?_whole {s : Snapshot} {form : Json} (h : s.json? = some form) : form.IsWhole := by
  obtain ⟨path, -, rfl⟩ := json?_eq_some.mp h
  have hattributes : (Json.object s.members).IsWhole := .object (by
    simp only [members, List.forall_mem_map]
    exact fun a _ => a.json_whole)
  exact .object (by simp [Json.IsWhole.str, hattributes])

theorem nodup_members {s : Snapshot} (hs : s.attributes.Pairwise (·.kind.rank < ·.kind.rank)) :
    (s.members.map Prod.fst).Nodup := by
  rw [members, List.map_map, List.Nodup, List.pairwise_map]
  refine hs.imp fun {a b} hlt heq => ?_
  have hkind : a.kind = b.kind := AttributeKind.name_inj heq
  exact absurd hlt (by simp [hkind])

/-- The members tell the attributes, each by itself. -/
theorem subset_of_members {s t : Snapshot}
    (hs : s.attributes.Pairwise (·.kind.rank < ·.kind.rank))
    (ht : t.attributes.Pairwise (·.kind.rank < ·.kind.rank))
    (h : Json.object s.members = Json.object t.members) : s.attributes ⊆ t.attributes := by
  intro a ha
  have hmember : (a.kind.name, a.json) ∈ s.members := List.mem_map.mpr ⟨a, ha, rfl⟩
  have hfound := (Json.get?_object_iff (nodup_members hs)).mpr hmember
  rw [h] at hfound
  obtain ⟨b, hb, heq⟩ := List.mem_map.mp ((Json.get?_object_iff (nodup_members ht)).mp hfound)
  rw [← Attribute.json_inj (Prod.mk.inj heq).2]
  exact hb

theorem attributes_eq {as bs : List Attribute} (has : as.Pairwise (·.kind.rank < ·.kind.rank))
    (hbs : bs.Pairwise (·.kind.rank < ·.kind.rank)) (hab : as ⊆ bs) (hba : bs ⊆ as) : as = bs := by
  have hnodup {cs : List Attribute} (hcs : cs.Pairwise (·.kind.rank < ·.kind.rank)) : cs.Nodup :=
    hcs.imp fun hlt heq => absurd hlt (by simp [heq])
  have hperm : as.Perm bs := (List.perm_ext_iff_of_nodup (hnodup has) (hnodup hbs)).mpr
    fun a => ⟨fun h => hab h, fun h => hba h⟩
  exact hperm.eq_of_pairwise (fun a b _ _ hlt hgt => absurd hlt (Nat.lt_asymm hgt)) has hbs

/-- **The form of a snapshot tells the snapshot.** -/
theorem json?_inj {s t : Snapshot} {form : Json}
    (hs : s.attributes.Pairwise (·.kind.rank < ·.kind.rank))
    (ht : t.attributes.Pairwise (·.kind.rank < ·.kind.rank))
    (h : s.json? = some form) (h' : t.json? = some form) : s = t := by
  obtain ⟨path, hpath, hform⟩ := json?_eq_some.mp h
  obtain ⟨path', hpath', rfl⟩ := json?_eq_some.mp h'
  have hpaths := Json.get?_congr hform "path"
  have hattributes := Json.get?_congr hform "attributes"
  simp [Association.lookup_cons] at hpaths hattributes
  have hpath_eq : s.path = t.path := by rw [← hpath, ← hpath', hpaths]
  have hattrs_eq : s.attributes = t.attributes := attributes_eq hs ht
    (subset_of_members hs ht hattributes) (subset_of_members ht hs hattributes.symm)
  cases s
  cases t
  rw [Snapshot.mk.injEq]
  exact ⟨hpath_eq, hattrs_eq⟩

end Snapshot

end Conformance
