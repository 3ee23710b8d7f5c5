import Conformance.Proofs.Datum.Edits
import Conformance.Proofs.Script.Owners
import Conformance.Proofs.Script.Readings

/-!
# Fixed keys

The format fixes the keys of the document, of every step, and of what a
step expects (`Script.FixedKeys`). Where a document could be read, an
entry that comes to one of these mappings is of a key that is defined
there, or it is one of an owner that nobody looks at
(`Script.overlooks_of_ofDatum`).
-/

namespace Conformance

open Datum (Turn)
open Reader (Admits)

/-! ## The keys of the format -/

/-- The keys that a mapping may have: those of a record, besides others
that are taken out of it before; or those of an owner. -/
inductive KeySet where
  | record (taken fields : List String)
  | owner

namespace KeySet

/-- The format defines a key. The fields of an owner go by numbers too. -/
def Defines : KeySet → Datum → Prop
  | .record taken fields, k =>
    (∃ key ∈ taken, k = .text key) ∨ ∃ name ∈ fields, k.fieldName? = some name
  | .owner, k => ∃ name ∈ ["id", "name"], IdentityLiteral.key? k = some name

/-- Nobody looks at an entry under a key that is not defined. -/
def Overlooks : KeySet → Datum → Datum → Prop
  | .record .., _, _ => False
  | .owner, k, v => (IdentityLiteral.key? k).isSome ∧ Reader.hasTag v = false

end KeySet

/-- The fields of the steps of a kind. -/
def Step.fieldNames : String → Option (List String)
  | "before" => some ["path", "action", "content", "mode", "target"]
  | "monitor-request" => some ["path", "capability", "attributes", "config"]
  | "after" => some ["expect", "timeout_ms"]
  | "exists" => some ["path", "exists"]
  | "file-state" => some ["path", "expect"]
  | _ => none

/-- The mappings with fixed keys in a step of some kind. -/
inductive Step.FixedKeys : String → List Turn → KeySet → Prop
  | step {kind : String} {names : List String} (h : Step.fieldNames kind = some names) :
    FixedKeys kind [] (.record ["name", "kind"] names)
  | parcel : FixedKeys "after" [.key "expect"]
    (.record [] ["sender", "recipient", "type", "compression", "sequence", "group",
      "payload_contains", "count"])
  | sequence : FixedKeys "after" [.key "expect", .key "sequence"]
    (.record [] ["major", "minor"])
  | parcelGroup : FixedKeys "after" [.key "expect", .key "group"]
    (.record [] ["id", "disposition"])
  | state : FixedKeys "file-state" [.key "expect"]
    (.record [] ["file-type", "permissions", "owner", "group", "atime", "mtime", "ctime", "acl"])
  | user : FixedKeys "file-state" [.key "expect", .key "owner"] .owner
  | group : FixedKeys "file-state" [.key "expect", .key "group"] .owner

/-- The mappings with fixed keys in the document of a script. -/
inductive Script.FixedKeys (d : Datum) : List Turn → KeySet → Prop
  | document : FixedKeys d [] (.record ownKeys ["capability", "steps"])
  | inStep {i : Nat} {es : List (Datum × Datum)} {kind : String} {way : List Turn}
    {keys : KeySet} (hstep : d.Leads [.key "steps", .item i] (.map es))
    (hkind : Datum.lookup "kind" es = some (.text kind)) (h : Step.FixedKeys kind way keys) :
    FixedKeys d (.key "steps" :: .item i :: way) keys

/-! ## Keys that are refused -/

namespace Reader

/-- A closed record with one entry more could only be read if the entry is
of one of its fields. -/
theorem Admits.known_entry {fs : List Field} {values : List (String × Datum)}
    {x k v : Datum} {i : Nat} {es : List (Datum × Datum)} (hx : x.untag = .map es)
    (h : Admits fs values (x.edit (.withEntry i k v) [])) :
    ∃ name ∈ fs.map (·.name), k.fieldName? = some name := by
  obtain ⟨f, hf, hkey⟩ := h.known _ (Datum.untag_withEntry hx) (k, v)
    (Datum.mem_withEntry.mpr (.inl rfl))
  exact ⟨f.name, List.mem_map_of_mem hf, hkey⟩

theorem optional_of_map {α : Type} {reader : Reader α} {d : Datum} {es : List (Datum × Datum)}
    (hd : d.untag = .map es) {a : Option α} (h : optional reader d = .ok a) :
    ∃ b, reader d = .ok b := by
  unfold optional at h
  split at h
  · cases hd
  · obtain ⟨b, hb, -⟩ := Result.map_eq_ok.mp h
    exact ⟨b, hb⟩

/-- The same of a closed record in an optional field. -/
theorem Admits.known_entry_below {α : Type} {fs fs' : List Field}
    {values : List (String × Datum)} {d x k v : Datum} {i : Nat} {name : String}
    {es : List (Datum × Datum)}
    (h : Admits fs values (d.edit (.withEntry i k v) [.key name])) (hx : x.untag = .map es)
    (hd : d.Holds name x) (reader : Reader α)
    (hfield : ∀ f ∈ fs, f.name = name → f = .of name (optional reader))
    (hreader : ∀ d a, reader d = .ok a → ∃ values, Admits fs' values d) :
    ∃ name ∈ fs'.map (·.name), k.fieldName? = some name := by
  obtain ⟨a, ha⟩ := h.read_field hd.edit (optional reader) hfield
  obtain ⟨b, hb⟩ := optional_of_map (Datum.untag_withEntry hx) ha
  obtain ⟨values', hadmits⟩ := hreader _ b hb
  exact hadmits.known_entry hx

end Reader

theorem IdentityLiteral.overlooks_of_reader {d k v : Datum} {es : List (Datum × Datum)}
    (hd : d.untag = .map es) (he : (k, v) ∈ es) {a : IdentityLiteral}
    (h : reader d = .ok a) : KeySet.owner.Overlooks k v := by
  rw [eq_map_of_reader hd h] at h
  exact of_reader h he

namespace Step

variable {capability : String} {index i : Nat} {step : Step} {es : List (Datum × Datum)}
  {kind : String} {k v : Datum}

theorem fields_names {fs : List Reader.Field} (h : fields kind = some fs) :
    fieldNames kind = some (fs.map (·.name)) := by
  unfold fields at h
  split at h
  all_goals cases h
  all_goals rfl

/-- The change of a value that a step holds leaves its kind. -/
theorem mem_map_changeEntry {g : Datum → Datum} {name : String} (hname : name ≠ "kind")
    (hkind : (.text "kind", .text kind) ∈ es) :
    (.text "kind", .text kind) ∈ es.map (Datum.changeEntry name g) := by
  have hmem := List.mem_map_of_mem (f := Datum.changeEntry name g) hkind
  rwa [Datum.changeEntry_of_ne (by simpa [Datum.fieldName?, Datum.untag] using hname.symm)]
    at hmem

/-- What a step expects was read, after any change of it. -/
theorem expect_read {α : Type} {reader : Reader α} {g : Datum → Datum} {way : List Turn}
    (hfs : ∀ fs, fields kind = some fs → ∀ f ∈ fs, f.name = "expect" → f = .of "expect" reader)
    (h : ofDatum capability index ((Datum.map es).edit g (.key "expect" :: way)) = .ok step)
    (hkind : (.text "kind", .text kind) ∈ es) (hv : (Datum.map es).Holds "expect" v) :
    ∃ expect, reader (v.edit g way) = .ok expect := by
  obtain ⟨rest, fs, values, hkindFields, hadmits, hleaves⟩ :=
    ofDatum_admits h (mem_map_changeEntry (by decide) hkind)
  exact hadmits.read_field (hleaves.holds (by decide) (by decide) hv.edit) reader
    (hfs fs hkindFields)

theorem await_read {g : Datum → Datum} {way : List Turn}
    (h : ofDatum capability index ((Datum.map es).edit g (.key "expect" :: way)) = .ok step)
    (hkind : (.text "kind", .text "after") ∈ es) (hv : (Datum.map es).Holds "expect" v) :
    ∃ expect, ParcelExpectation.reader .script (v.edit g way) = .ok expect := by
  refine expect_read (fun fs hfs => ?_) h hkind hv
  cases hfs
  simp [Reader.Field.of]

theorem fileState_read {g : Datum → Datum} {way : List Turn}
    (h : ofDatum capability index ((Datum.map es).edit g (.key "expect" :: way)) = .ok step)
    (hkind : (.text "kind", .text "file-state") ∈ es) (hv : (Datum.map es).Holds "expect" v) :
    ∃ expect, StateEntries.reader (v.edit g way) = .ok expect := by
  refine expect_read (fun fs hfs => ?_) h hkind hv
  cases hfs
  simp [Reader.Field.of]

theorem defines_of_ofDatum {names : List String} (hnames : fieldNames kind = some names)
    (hkind : (.text "kind", .text kind) ∈ es) (hk : (k, v) ∈ es)
    (h : ofDatum capability index (.map es) = .ok step) :
    (KeySet.record ["name", "kind"] names).Defines k := by
  obtain ⟨rest, fs, values, hfs, hadmits, hleaves⟩ := ofDatum_admits h hkind
  obtain rfl : fs.map (·.name) = names := Option.some.inj ((fields_names hfs).symm.trans hnames)
  rcases hleaves.left _ hk with hleft | hname | hboth
  · obtain ⟨f, hf, hkey⟩ := hadmits.known rest rfl _ hleft
    exact .inr ⟨f.name, List.mem_map_of_mem hf, hkey⟩
  · exact .inl ⟨"name", by simp, hname⟩
  · exact .inl ⟨"kind", by simp, congrArg Prod.fst hboth⟩

theorem overlooks_of_owner {name : String} (hname : name = "owner" ∨ name = "group")
    (hkind : (.text "kind", .text "file-state") ∈ es) {x : Datum}
    (hway : (Datum.map es).Leads [.key "expect", .key name] x)
    {es' : List (Datum × Datum)} (hx : x.untag = .map es')
    (h : ofDatum capability index
      ((Datum.map es).edit (.withEntry i k v) [.key "expect", .key name]) = .ok step) :
    KeySet.owner.Overlooks k v := by
  obtain ⟨v₀, he, hrest⟩ := hway.of_key
  obtain ⟨w, hw, ⟨⟩⟩ := hrest.of_key
  obtain ⟨expect, hexpect⟩ := fileState_read h hkind he
  obtain ⟨values, hadmits⟩ := admits_of_bind hexpect
  obtain ⟨a, ha⟩ := hadmits.read_field hw.edit (Reader.optional IdentityLiteral.reader)
    (by rcases hname with rfl | rfl <;> simp [Reader.Field.of])
  have hentry := Datum.untag_withEntry (i := i) (k := k) (v := v) hx
  obtain ⟨literal, hliteral⟩ := Reader.optional_of_map hentry ha
  exact IdentityLiteral.overlooks_of_reader hentry (Datum.mem_withEntry.mpr (.inl rfl)) hliteral

/-- A key that comes to a step and is not overlooked is refused. -/
theorem overlooks_of_ofDatum {way : List Turn} {keys : KeySet} (hkeys : FixedKeys kind way keys)
    (hkind : (.text "kind", .text kind) ∈ es) {x : Datum} (hway : (Datum.map es).Leads way x)
    {es' : List (Datum × Datum)} (hx : x.untag = .map es') (hforeign : ¬ keys.Defines k)
    (h : ofDatum capability index ((Datum.map es).edit (.withEntry i k v) way) = .ok step) :
    keys.Overlooks k v := by
  cases hkeys with
  | step hnames =>
      cases hway
      have hmore : (.text "kind", .text kind) ∈ es.take i ++ (k, v) :: es.drop i :=
        Datum.mem_withEntry.mpr (.inr hkind)
      have hk : (k, v) ∈ es.take i ++ (k, v) :: es.drop i := Datum.mem_withEntry.mpr (.inl rfl)
      exact absurd (defines_of_ofDatum hnames hmore hk h) hforeign
  | parcel =>
      obtain ⟨v₀, he, ⟨⟩⟩ := hway.of_key
      obtain ⟨expect, hexpect⟩ := await_read h hkind he
      obtain ⟨values, hadmits⟩ := admits_of_bind hexpect
      exact absurd (.inr (hadmits.known_entry hx)) hforeign
  | sequence =>
      obtain ⟨v₀, he, hrest⟩ := hway.of_key
      obtain ⟨w, hw, ⟨⟩⟩ := hrest.of_key
      obtain ⟨expect, hexpect⟩ := await_read h hkind he
      obtain ⟨values, hadmits⟩ := admits_of_bind hexpect
      have hknown := hadmits.known_entry_below hx hw (SequenceExpectation.reader .script)
        (by simp [Reader.Field.of]) fun _ _ => admits_of_bind
      exact absurd (.inr hknown) hforeign
  | parcelGroup =>
      obtain ⟨v₀, he, hrest⟩ := hway.of_key
      obtain ⟨w, hw, ⟨⟩⟩ := hrest.of_key
      obtain ⟨expect, hexpect⟩ := await_read h hkind he
      obtain ⟨values, hadmits⟩ := admits_of_bind hexpect
      have hknown := hadmits.known_entry_below hx hw (GroupExpectation.reader .script)
        (by simp [Reader.Field.of]) fun _ _ => admits_of_bind
      exact absurd (.inr hknown) hforeign
  | state =>
      obtain ⟨v₀, he, ⟨⟩⟩ := hway.of_key
      obtain ⟨expect, hexpect⟩ := fileState_read h hkind he
      obtain ⟨values, hadmits⟩ := admits_of_bind hexpect
      exact absurd (.inr (hadmits.known_entry hx)) hforeign
  | user => exact overlooks_of_owner (.inl rfl) hkind hway hx h
  | group => exact overlooks_of_owner (.inr rfl) hkind hway hx h

end Step

namespace Script

theorem keys_of_ofDatum {es : List (Datum × Datum)} {s : Script} {k v : Datum}
    (h : ofDatum (.map es) = .ok s) (hk : (k, v) ∈ es) :
    (KeySet.record ownKeys ["capability", "steps"]).Defines k := by
  obtain ⟨es', capability, items, hes, hbody, -⟩ := ofDatum_ok h
  cases hes
  obtain ⟨⟨values, hadmits⟩, -⟩ := bodyReader_ok hbody
  by_cases hown : ∃ key ∈ ownKeys, k = .text key
  · exact .inl hown
  · have hleft : (k, v) ∈ remainder es :=
      mem_remainder hk fun key hkey heq => hown ⟨key, hkey, heq⟩
    obtain ⟨f, hf, hname⟩ := hadmits.known _ rfl _ hleft
    exact .inr ⟨f.name, List.mem_map_of_mem hf, hname⟩

theorem holds_remainder {es : List (Datum × Datum)} {v : Datum}
    (h : (Datum.map es).Holds "steps" v) : (Datum.map (remainder es)).Holds "steps" v :=
  (holds_remainder_iff (by decide)).mpr h

/-- The items that a document holds are those that were read as steps. -/
theorem items_of_ofDatum {d : Datum} {s : Script} (h : ofDatum d = .ok s) :
    ∃ capability items, Step.ofList capability 0 items = .ok s.steps
      ∧ ∀ v xs, d.Holds "steps" v → v.untag = .list xs → items = xs := by
  obtain ⟨es, capability, items, rfl, hbody, hlist⟩ := ofDatum_ok h
  exact ⟨capability, items, hlist, fun v xs hv => (bodyReader_ok hbody).2 v xs (holds_remainder hv)⟩

theorem step_of_leads {d : Datum} {s : Script} (h : ofDatum d = .ok s) {j : Nat}
    {fs : List (Datum × Datum)} (hstep : d.Leads [.key "steps", .item j] (.map fs))
    {way : List Turn} {x : Datum} (hway : d.Leads (.key "steps" :: .item j :: way) x) :
    ∃ v items, d.Holds "steps" v ∧ v.untag = .list items ∧ items[j]? = some (.map fs)
      ∧ (Datum.map fs).Leads way x := by
  obtain ⟨v, hv, hrest⟩ := hway.of_key
  obtain ⟨xs, x₀, hxs, hi, hrest⟩ := hrest.of_item
  -- Both ways go through the one list that was read as the steps.
  obtain ⟨v', hv', hitem⟩ := hstep.of_key
  obtain ⟨xs', x₁, hxs', hi', ⟨⟩⟩ := hitem.of_item
  obtain ⟨capability, items, -, hitems⟩ := items_of_ofDatum h
  obtain rfl := hitems v xs hv hxs
  obtain rfl := hitems v' xs' hv' hxs'
  obtain rfl := Option.some.inj (hi.symm.trans hi')
  exact ⟨v, items, hv, hxs, hi, hrest⟩

/-- **Refused keys.** A document with one entry more than one that could be
read can itself only be read if nobody looks at the entry. -/
theorem overlooks_of_ofDatum {d : Datum} {s s' : Script} (h : ofDatum d = .ok s)
    {way : List Turn} {keys : KeySet} (hkeys : FixedKeys d way keys) {x : Datum}
    (hway : d.Leads way x) {es : List (Datum × Datum)} (hx : x.untag = .map es) {k v : Datum}
    (hforeign : ¬ keys.Defines k) {i : Nat}
    (h' : ofDatum (d.edit (.withEntry i k v) way) = .ok s') : keys.Overlooks k v := by
  cases hkeys with
  | document =>
      obtain ⟨es', -, -, rfl, -⟩ := ofDatum_ok h
      cases hway
      have hk : (k, v) ∈ es'.take i ++ (k, v) :: es'.drop i := Datum.mem_withEntry.mpr (.inl rfl)
      exact absurd (keys_of_ofDatum h' hk) hforeign
  | @inStep j fs kind way keys hstep hkind hkeys =>
      obtain ⟨v₀, items, hv, hitems, hi, hrest⟩ := step_of_leads h hstep hway
      obtain ⟨capability, items', hlist, hitems'⟩ := items_of_ofDatum h'
      obtain rfl := hitems' _ _ hv.edit (Datum.untag_edit_item hitems)
      obtain ⟨step, -, hstep⟩ := (Step.ofList_ok hlist).2 j _ (by
        rw [List.getElem?_modify_eq, hi]
        rfl)
      exact Step.overlooks_of_ofDatum hkeys (Datum.mem_of_lookup hkind) hrest hx hforeign hstep

end Script

end Conformance
