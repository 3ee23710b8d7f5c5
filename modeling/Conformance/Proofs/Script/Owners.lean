import Conformance.Proofs.Datum.Records
import Conformance.Script.Literal

/-!
# Owners as mappings

The mapping form of an owner is a record that is not closed: of an entry
that is neither an id nor a name only the key is looked at, whether it
could be the key of a record at all, and the entry makes no difference
(`reader_insert`). Tags are refused wherever they stand.

Neither an id nor a name has to be there. So there are owners that are
anybody: those of which the document says neither (`reader_anybody`).
-/

namespace Conformance

namespace Reader

variable {es es' : List (Datum × Datum)} {k v : Datum}

theorem anyEntryTag_append :
    anyEntryTag (es ++ es') = (anyEntryTag es || anyEntryTag es') := by
  induction es with
  | nil => rfl
  | cons e r ih => simp [anyEntryTag, ih, Bool.or_assoc]

theorem hasTag_of_mem (h : anyEntryTag es = false) (he : (k, v) ∈ es) : hasTag v = false := by
  obtain ⟨l, r, rfl⟩ := List.append_of_mem he
  rw [anyEntryTag_append] at h
  simp only [anyEntryTag, Bool.or_eq_false_iff] at h
  exact h.2.1.2

/-- What is read by shape is what one of the readings gives. -/
theorem byShape_eq_ok {α : Type} {name : String} {readings : List (Datum → Option α)} {d : Datum}
    {a : α} (h : byShape name readings d = .ok a) : ∃ reading ∈ readings, reading d = some a := by
  unfold byShape at h
  split at h
  · cases h
  · split at h
    · rename_i hfind
      obtain rfl := Except.ok.inj h
      exact List.exists_of_findSome?_eq_some hfind
    · cases h

/-- An open record passes over an entry that is of none of its fields. -/
theorem scan_skip (fields : List Field) {k : Datum} {name : String}
    (hk : k.fieldName? = some name) (hnone : ∀ f ∈ fields, f.name ≠ name) (v : Datum) :
    ∀ (l r : List (Datum × Datum)) (seen : List String),
      scan false fields seen (l ++ (k, v) :: r) = scan false fields seen (l ++ r)
  | [], r, seen => by
      have hfind : fields.find? (·.name = name) = none :=
        List.find?_eq_none.mpr fun f hf => by simpa using hnone f hf
      rw [List.nil_append, scan, textAs_eq_ok.mpr hk]
      simp only [hfind, Bool.false_eq_true, if_false, List.nil_append]
  | (k', v') :: l, r, seen => by
      have ih := scan_skip fields hk hnone v l r
      simp only [List.cons_append, scan, ih]

end Reader

namespace IdentityLiteral

variable {es es' : List (Datum × Datum)} {k v : Datum}

theorem keyed?_append :
    keyed? (es ++ es') = (keyed? es).bind fun l => (keyed? es').map (l ++ ·) := by
  induction es with
  | nil => simp [keyed?]
  | cons e r ih =>
      obtain ⟨k, v⟩ := e
      simp only [List.cons_append, keyed?, ih]
      cases key? k with
      | none => rfl
      | some name => cases keyed? r <;> cases keyed? es' <;> rfl

theorem key?_of_mem {l : List (Datum × Datum)} (h : keyed? es = some l) (he : (k, v) ∈ es) :
    (key? k).isSome := by
  obtain ⟨l₁, l₂, rfl⟩ := List.append_of_mem he
  rw [keyed?_append] at h
  obtain ⟨r₁, -, h⟩ := Option.bind_eq_some_iff.mp h
  obtain ⟨r₂, h, -⟩ := Option.map_eq_some_iff.mp h
  rw [keyed?] at h
  cases hk : key? k with
  | some name => rfl
  | none =>
      rw [hk] at h
      cases h

theorem hasTag_of_key? {name : String} (h : key? k = some name) : Reader.hasTag k = false := by
  cases k with
  | tagged t v => cases h
  | list _ | map _ => cases h
  | null | bool _ | number _ | text _ => rfl

/-- Of an owner that is a mapping, only the last reading can come to
anything. -/
theorem reader_map :
    reader (.map es) = if Reader.anyEntryTag es then .error .taggedChoice
      else match ofBoth? (.map es) with
        | some a => .ok a
        | none => .error (.noVariant "IdentityLiteral") := by
  have hid : ofId? (.map es) = none := rfl
  have hname : ofName? (.map es) = none := rfl
  unfold reader Reader.byShape
  simp only [Reader.hasTag, List.findSome?, hid, hname]
  cases ofBoth? (.map es) <;> rfl

theorem eq_map_of_reader {d : Datum} (hd : d.untag = .map es) {a : IdentityLiteral}
    (h : reader d = .ok a) : d = .map es := by
  cases d with
  | tagged t d => cases h
  | map _ => exact hd
  | null | bool _ | number _ | text _ | list _ => cases hd

/-- Every entry of an owner that could be read has a key that could be of
a record, and no tag. -/
theorem of_reader {a : IdentityLiteral} (h : reader (.map es) = .ok a) (he : (k, v) ∈ es) :
    (key? k).isSome ∧ Reader.hasTag v = false := by
  rw [reader_map] at h
  split at h
  · cases h
  · rename_i htag
    split at h
    · rename_i hboth
      obtain ⟨l, hl, -⟩ := Option.bind_eq_some_iff.mp hboth
      exact ⟨key?_of_mem hl he, Reader.hasTag_of_mem (Bool.not_eq_true _ ▸ htag) he⟩
    · cases h

/-- **Overlooked entries.** An entry that is neither an id nor a name
makes no difference. -/
theorem reader_insert (es es' : List (Datum × Datum)) {name : String}
    (hkey : key? k = some name) (hid : name ≠ "id")
    (hname : name ≠ "name") (hv : Reader.hasTag v = false) :
    reader (.map (es ++ (k, v) :: es')) = reader (.map (es ++ es')) := by
  have htag : Reader.anyEntryTag (es ++ (k, v) :: es') = Reader.anyEntryTag (es ++ es') := by
    simp [Reader.anyEntryTag_append, Reader.anyEntryTag, hasTag_of_key? hkey, hv]
  have hboth : ofBoth? (.map (es ++ (k, v) :: es')) = ofBoth? (.map (es ++ es')) := by
    have hfield : (Datum.text name).fieldName? = some name := rfl
    simp only [ofBoth?, keyed?_append, keyed?, hkey]
    cases keyed? es with
    | none => rfl
    | some l =>
        cases keyed? es' with
        | none => rfl
        | some r =>
            have hskip := Reader.scan_skip [.of "id" (Reader.optional Reader.word32),
              .of "name" (Reader.optional Reader.text)] hfield
              (by simp [Reader.Field.of, hid.symm, hname.symm]) v l r []
            simp only [Option.bind_eq_bind, Option.bind_some, Option.map_some, Reader.entries,
              Datum.untag, hskip]
  rw [reader_map, reader_map, htag, hboth]

/-! ## Owners that are anybody -/

/-- An owner in a document that says neither who it is by id nor by
name. -/
def Anybody : Datum → Prop
  | .map es => ∀ k v, (k, v) ∈ es → key? k = some "id" ∨ key? k = some "name" → v = .null
  | .list [id, name] => id = .null ∧ name = .null
  | _ => False

theorem mem_keyed? : ∀ {es l : List (Datum × Datum)}, keyed? es = some l →
    ∀ {e : Datum × Datum}, e ∈ l ↔ ∃ k name, (k, e.2) ∈ es ∧ key? k = some name ∧ e.1 = .text name
  | [], l, h, e => by
      obtain rfl := Option.some.inj h
      simp
  | (k, v) :: r, l, h, e => by
      rw [keyed?] at h
      split at h
      · rename_i name rest hk hrest
        obtain rfl := Option.some.inj h
        rw [List.mem_cons, mem_keyed? hrest]
        constructor
        · rintro (rfl | ⟨k', name', he, hkey, hname⟩)
          · exact ⟨k, name, List.mem_cons_self .., hk, rfl⟩
          · exact ⟨k', name', List.mem_cons_of_mem _ he, hkey, hname⟩
        · rintro ⟨k', name', he, hkey, hname⟩
          rcases List.mem_cons.mp he with heq | he
          · obtain ⟨rfl, hv⟩ := Prod.mk.inj heq
            obtain rfl := Option.some.inj (hk.symm.trans hkey)
            exact .inl (Prod.ext hname hv)
          · exact .inr ⟨k', name', he, hkey, hname⟩
      · cases h

theorem holds_keyed?_iff (h : keyed? es = some es') {name : String} :
    (Datum.map es').Holds name v ↔ ∃ k, (k, v) ∈ es ∧ key? k = some name := by
  constructor
  · rintro ⟨_, hes, k, he, hk⟩
    cases hes
    obtain ⟨k', name', he', hkey, hname⟩ := (mem_keyed? h).mp he
    obtain rfl : k = .text name' := hname
    obtain rfl := Option.some.inj hk
    exact ⟨k', he', hkey⟩
  · rintro ⟨k, he, hk⟩
    exact ⟨es', rfl, .text name, (mem_keyed? h).mpr ⟨k, name, he, hk, rfl⟩, rfl⟩

/-- An owner that is a record whose keys are all texts. -/
def ofRecord? (l : List (Datum × Datum)) : Option IdentityLiteral := do
  let r ← (Reader.entries .json "an owner" false
    [.of "id" (Reader.optional Reader.word32), .of "name" (Reader.optional Reader.text)]
    (.map l)).toOption
  let id ← (r.optional "id" Reader.word32).toOption
  let name ← (r.optional "name" Reader.text).toOption
  return ⟨id, name⟩

/-- What is missing of the owner is what the record leaves out or has as
null. -/
theorem ofRecord?_anybody {l : List (Datum × Datum)} {a : IdentityLiteral}
    (h : ofRecord? l = some a) :
    a = ⟨none, none⟩ ↔ ∀ v, (Datum.map l).Holds "id" v ∨ (Datum.map l).Holds "name" v →
      v = .null := by
  obtain ⟨r, hr, h⟩ := Option.bind_eq_some_iff.mp h
  obtain ⟨id, hid, h⟩ := Option.bind_eq_some_iff.mp h
  obtain ⟨name, hname, h⟩ := Option.bind_eq_some_iff.mp h
  cases h
  rw [Result.toOption_eq_some] at hr hid hname
  have hlisted : r.listed = none := by
    obtain ⟨values, -, rfl⟩ := Result.map_eq_ok.mp hr
    rfl
  rw [IdentityLiteral.mk.injEq, Reader.optional_eq_none_iff hr hlisted rfl hid,
    Reader.optional_eq_none_iff hr hlisted rfl hname]
  constructor
  · rintro ⟨hid, hname⟩ v (hv | hv)
    · exact hid v hv
    · exact hname v hv
  · exact fun h => ⟨fun v hv => h v (.inl hv), fun v hv => h v (.inr hv)⟩

theorem reader_cases {d : Datum} {a : IdentityLiteral} (h : reader d = .ok a) :
    ofId? d = some a ∨ ofName? d = some a ∨ ofBoth? d = some a := by
  obtain ⟨reading, hreading, ha⟩ := Reader.byShape_eq_ok h
  simp only [List.mem_cons, List.not_mem_nil, or_false] at hreading
  rcases hreading with rfl | rfl | rfl
  · exact .inl ha
  · exact .inr (.inl ha)
  · exact .inr (.inr ha)

theorem ofBoth?_anybody {d : Datum} {a : IdentityLiteral} (h : ofBoth? d = some a) :
    a = ⟨none, none⟩ ↔ Anybody d := by
  cases d with
  | map es =>
      obtain ⟨l, hl, h⟩ := Option.bind_eq_some_iff.mp h
      rw [ofRecord?_anybody h, Anybody]
      simp only [holds_keyed?_iff hl]
      constructor
      · rintro hnull k v he (hk | hk)
        · exact hnull v (.inl ⟨k, he, hk⟩)
        · exact hnull v (.inr ⟨k, he, hk⟩)
      · rintro hnull v (⟨k, he, hk⟩ | ⟨k, he, hk⟩)
        · exact hnull k v he (.inl hk)
        · exact hnull k v he (.inr hk)
  | list xs =>
      match xs, h with
      | [x, y], h =>
          have hrecord : ofRecord? [(.text "id", x), (.text "name", y)] = some a := h
          rw [ofRecord?_anybody hrecord, Anybody]
          simp [Datum.holds_cons, Datum.holds_nil]
      | [], h | [_], h | _ :: _ :: _ :: _, h => cases h
  | null | bool _ | number _ | text _ | tagged _ _ => cases h

/-- **Anybody.** An owner that was read has neither id nor name just if the
document says neither. -/
theorem reader_anybody {d : Datum} {a : IdentityLiteral} (h : reader d = .ok a) :
    a = ⟨none, none⟩ ↔ Anybody d := by
  rcases reader_cases h with hid | hname | hboth
  · obtain ⟨id, hword, rfl⟩ := Option.map_eq_some_iff.mp hid
    cases d with
    | number n => simp [Anybody]
    | tagged t v => simp [Anybody]
    | null | bool _ | text _ | list _ | map _ => cases hword
  · cases d with
    | text s =>
        cases hname
        simp [Anybody]
    | null | bool _ | number _ | list _ | map _ | tagged _ _ => cases hname
  · exact ofBoth?_anybody hboth

end IdentityLiteral

end Conformance
