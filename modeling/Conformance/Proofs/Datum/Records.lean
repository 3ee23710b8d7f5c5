import Conformance.Datum.Decode
import Conformance.Proofs.Association

/-!
# Records in documents

What it means that a record could be read. Each entry of its mapping is of
one of the fields and has a value that the field accepts, and what is read
of a field is that value (`entries_admits`); of a field that the mapping
does not hold nothing is read (`holds_of_lookup`). So a record can be read no
other than before where the value of one field is changed into another
that is read the same (`entries_change`). And a record that has each of
its names once can be read if all its values fit (`entries_ofFields`).
-/

namespace Conformance

namespace Result

variable {ε α β : Type} {x : Except ε α}

theorem bind_eq_ok {f : α → Except ε β} {b : β} :
    x >>= f = .ok b ↔ ∃ a, x = .ok a ∧ f a = .ok b := by
  cases x <;> simp [bind, Except.bind]

theorem map_eq_ok {f : α → β} {b : β} : x.map f = .ok b ↔ ∃ a, x = .ok a ∧ f a = b := by
  cases x <;> simp [Except.map]

theorem ok_bind {a : α} {f : α → Except ε β} : (Except.ok a >>= f) = f a := rfl

theorem bind_pure_comp {f : α → β} : (x >>= fun a => pure (f a)) = x.map f := by
  cases x <;> rfl

theorem exists_bind_iff {f : α → Except ε β} :
    (∃ b, x >>= f = .ok b) ↔ ∃ a, x = .ok a ∧ ∃ b, f a = .ok b := by
  cases x <;> simp [bind, Except.bind]

theorem exists_map_iff {f : α → β} : (∃ b, x.map f = .ok b) ↔ ∃ a, x = .ok a := by
  cases x <;> simp [Except.map]

theorem toOption_eq_some {a : α} : x.toOption = some a ↔ x = .ok a := by
  cases x <;> simp [Except.toOption]

end Result

/-- The name of the field that a key stands for. Tags are ignored. -/
def Datum.fieldName? (k : Datum) : Option String :=
  match k.untag with
  | .text name => some name
  | _ => none

/-- The value of a field in a mapping. -/
def Datum.Holds (d : Datum) (name : String) (v : Datum) : Prop :=
  ∃ es, d.untag = .map es ∧ ∃ k, (k, v) ∈ es ∧ k.fieldName? = some name

theorem Datum.holds_nil {name : String} {v : Datum} : ¬ (Datum.map []).Holds name v := by
  rintro ⟨_, hes, _, he, -⟩
  cases hes
  cases he

theorem Datum.holds_cons {key name : String} {v x : Datum} {es : List (Datum × Datum)} :
    (Datum.map ((.text key, x) :: es)).Holds name v
      ↔ key = name ∧ v = x ∨ (Datum.map es).Holds name v := by
  constructor
  · rintro ⟨_, hes, k, he, hk⟩
    cases hes
    rcases List.mem_cons.mp he with heq | he
    · obtain ⟨rfl, rfl⟩ := Prod.mk.inj heq
      exact .inl ⟨Option.some.inj hk, rfl⟩
    · exact .inr ⟨es, rfl, k, he, hk⟩
  · rintro (⟨rfl, rfl⟩ | ⟨_, hes, k, he, hk⟩)
    · exact ⟨_, rfl, .text key, List.mem_cons_self .., rfl⟩
    · cases hes
      exact ⟨_, rfl, k, List.mem_cons_of_mem _ he, hk⟩

/-- An entry with its value changed, if it is of the field. -/
def Datum.changeEntry (name : String) (g : Datum → Datum) (e : Datum × Datum) : Datum × Datum :=
  if e.1.fieldName? = some name then (e.1, g e.2) else e

namespace Datum

variable {name : String} {g : Datum → Datum}

theorem changeEntry_key (e : Datum × Datum) : (changeEntry name g e).1 = e.1 := by
  unfold changeEntry
  split <;> rfl

theorem changeEntry_of_eq {k v : Datum} (h : k.fieldName? = some name) :
    changeEntry name g (k, v) = (k, g v) :=
  if_pos h

theorem changeEntry_of_ne {e : Datum × Datum} (h : e.1.fieldName? ≠ some name) :
    changeEntry name g e = e :=
  if_neg h

end Datum

namespace Reader

variable {closed : Bool} {fields : List Field}

theorem textAs_eq_ok {want name : String} {k : Datum} :
    textAs want k = .ok name ↔ k.fieldName? = some name := by
  unfold textAs Datum.fieldName? wrong
  cases k.untag <;> simp

theorem optional_eq_some {α : Type} {reader : Reader α} {d : Datum} {a : α} :
    optional reader d = .ok (some a) ↔ d ≠ .null ∧ reader d = .ok a := by
  unfold optional
  split
  · simp
  · rename_i hnull
    rw [Result.map_eq_ok]
    simp [show d ≠ .null from hnull]

theorem optional_eq_none {α : Type} {reader : Reader α} {d : Datum} :
    optional reader d = .ok none ↔ d = .null := by
  unfold optional
  split
  · simp
  · rename_i hnull
    rw [Result.map_eq_ok]
    simp [show d ≠ .null from hnull]

theorem text_eq_ok {d : Datum} {s : String} : text d = .ok s ↔ d.untag = .text s := by
  unfold text textAs wrong
  cases d.untag <;> simp

theorem nat_eq_ok {bound : Nat} {want : String} {d : Datum} {n : Nat} :
    nat bound want d = .ok n ↔ n < bound ∧ d.untag = .number (.int n) := by
  rw [nat, Result.map_eq_ok]
  unfold int wrong
  cases d.untag with
  | number m =>
      cases m with
      | int i =>
          simp only [Datum.number.injEq, Number.int.injEq]
          constructor
          · rintro ⟨a, h, rfl⟩
            split at h
            · rename_i hrange
              obtain rfl := Except.ok.inj h
              simp only [Bool.and_eq_true, decide_eq_true_eq] at hrange
              omega
            · cases h
          · rintro ⟨hn, rfl⟩
            refine ⟨n, if_pos ?_, Int.toNat_natCast n⟩
            simp only [Bool.and_eq_true, decide_eq_true_eq]
            omega
      | float x => simp
  | null | bool _ | text _ | list _ | map _ | tagged _ _ => simp

theorem exists_word64_iff {d : Datum} :
    (∃ n, word64 d = .ok n) ↔ ∃ n : Nat, n < 0x10000000000000000 ∧ d.untag = .number (.int n) :=
  exists_congr fun _ => nat_eq_ok

/-! ## Reading a record -/

/-- A closed record that could be read, with the values of its fields. -/
structure Admits (fields : List Field) (values : List (String × Datum)) (d : Datum) :
    Prop where
  known : ∀ es, d.untag = .map es → ∀ e ∈ es, ∃ f ∈ fields, e.1.fieldName? = some f.name
  accepted : ∀ name v, d.Holds name v → ∃ f ∈ fields, f.name = name ∧ f.accepts v = .ok ()
  value : ∀ name v, d.Holds name v → values.lookup name = some v

/-- The first entry is passed over, where the record is not closed, or it
is the only one of its field. -/
theorem scan_cons_ok {k v : Datum} {r : List (Datum × Datum)} {seen : List String}
    {values : List (String × Datum)} (h : scan closed fields seen ((k, v) :: r) = .ok values) :
    ∃ name, k.fieldName? = some name ∧
      (closed = false ∧ fields.find? (·.name = name) = none
          ∧ scan closed fields seen r = .ok values
        ∨ ∃ f rest, fields.find? (·.name = name) = some f ∧ name ∉ seen ∧ f.accepts v = .ok ()
          ∧ scan closed fields (name :: seen) r = .ok rest ∧ values = (name, v) :: rest) := by
  rw [scan] at h
  cases hk : textAs "field identifier" k with
  | error fault =>
      rw [hk] at h
      cases h
  | ok name =>
      rw [hk] at h
      dsimp only at h
      refine ⟨name, textAs_eq_ok.mp hk, ?_⟩
      split at h
      · rename_i hfind
        split at h
        · cases h
        · rename_i hclosed
          exact .inl ⟨Bool.not_eq_true _ ▸ hclosed, hfind, h⟩
      · rename_i f hfind
        split at h
        · cases h
        · rename_i hseen
          split at h
          · cases h
          · rename_i haccepts
            obtain ⟨rest, hrest, rfl⟩ := Result.map_eq_ok.mp h
            exact .inr ⟨f, rest, hfind, by simpa using hseen, haccepts, hrest, rfl⟩

/-- No entry of a closed record is passed over. -/
theorem scan_known : ∀ {es : List (Datum × Datum)} {seen : List String}
    {values : List (String × Datum)}, scan true fields seen es = .ok values →
      ∀ e ∈ es, ∃ name f, e.1.fieldName? = some name ∧ fields.find? (·.name = name) = some f
  | [], _, _, _ => by simp
  | (k, v) :: r, seen, values, h => by
      obtain ⟨name, hk, ⟨hclosed, -⟩ | ⟨f, rest, hfind, -, -, hrest, -⟩⟩ := scan_cons_ok h
      · cases hclosed
      · exact List.forall_mem_cons.mpr ⟨⟨name, f, hk, hfind⟩, scan_known hrest⟩

/-- What is read of a field is what stands under its name, once. -/
theorem scan_field {name : String} {f : Field} (hfind : fields.find? (·.name = name) = some f) :
    ∀ {es : List (Datum × Datum)} {seen : List String} {values : List (String × Datum)},
      scan closed fields seen es = .ok values → ∀ e ∈ es, e.1.fieldName? = some name →
        f.accepts e.2 = .ok () ∧ name ∉ seen ∧ values.lookup name = some e.2
  | [], _, _, _ => by simp
  | (k, v) :: r, seen, values, h => by
      obtain ⟨name', hk, ⟨-, hnone, hrest⟩ | ⟨f', rest, hfind', hnew, haccepts, hrest, rfl⟩⟩ :=
        scan_cons_ok h
      · refine List.forall_mem_cons.mpr ⟨fun hkey => ?_, scan_field hfind hrest⟩
        obtain rfl := Option.some.inj (hk.symm.trans hkey)
        rw [hnone] at hfind
        cases hfind
      · refine List.forall_mem_cons.mpr ⟨fun hkey => ?_, fun e he hkey => ?_⟩
        · obtain rfl := Option.some.inj (hk.symm.trans hkey)
          obtain rfl := Option.some.inj (hfind'.symm.trans hfind)
          exact ⟨haccepts, hnew, by rw [Association.lookup_cons, if_pos rfl]⟩
        · obtain ⟨haccepts', hseen, hlookup⟩ := scan_field hfind hrest e he hkey
          obtain ⟨hne, hnew'⟩ := not_or.mp (mt List.mem_cons.mpr hseen)
          exact ⟨haccepts', hnew', by rwa [Association.lookup_cons, if_neg hne]⟩

/-- Nothing is read but what stands there. -/
theorem mem_of_lookup {name : String} {v : Datum} : ∀ {es : List (Datum × Datum)}
    {seen : List String} {values : List (String × Datum)},
      scan closed fields seen es = .ok values → values.lookup name = some v →
        ∃ k, (k, v) ∈ es ∧ k.fieldName? = some name
  | [], _, _, h, hlookup => by
      cases h
      cases hlookup
  | (k, v') :: r, seen, values, h, hlookup => by
      obtain ⟨name', hk, ⟨-, -, hrest⟩ | ⟨f, rest, -, -, -, hrest, rfl⟩⟩ := scan_cons_ok h
      · obtain ⟨k', he, hkey⟩ := mem_of_lookup hrest hlookup
        exact ⟨k', List.mem_cons_of_mem _ he, hkey⟩
      · rw [Association.lookup_cons] at hlookup
        split at hlookup
        · rename_i hname
          cases hlookup
          exact ⟨k, List.mem_cons_self .., hname ▸ hk⟩
        · obtain ⟨k', he, hkey⟩ := mem_of_lookup hrest hlookup
          exact ⟨k', List.mem_cons_of_mem _ he, hkey⟩

/-- An entry is of a field, which accepts its value. -/
def Takes (fields : List Field) (e : Datum × Datum) : Prop :=
  ∃ name f, e.1.fieldName? = some name ∧ fields.find? (·.name = name) = some f
    ∧ f.accepts e.2 = .ok ()

/-- A closed record can be read just if its fields take all its entries,
and none of them comes twice. -/
theorem exists_scan_iff : ∀ {es : List (Datum × Datum)} {seen : List String},
    (∃ values, scan true fields seen es = .ok values)
      ↔ (∀ e ∈ es, Takes fields e ∧ ∀ name ∈ seen, e.1.fieldName? ≠ some name)
        ∧ (es.map (·.1.fieldName?)).Nodup
  | [], _ => by simp [scan]
  | (k, v) :: r, seen => by
      rw [List.forall_mem_cons, List.map_cons, List.nodup_cons, List.mem_map]
      constructor
      · rintro ⟨values, h⟩
        obtain ⟨name, hk, ⟨hclosed, -⟩ | ⟨f, rest, hfind, hnew, haccepts, hrest, -⟩⟩ :=
          scan_cons_ok h
        · cases hclosed
        · obtain ⟨hr, hnames⟩ := exists_scan_iff.mp ⟨rest, hrest⟩
          refine ⟨⟨⟨⟨name, f, hk, hfind, haccepts⟩, fun other hother heq => ?_⟩, fun e he => ?_⟩,
            ?_, hnames⟩
          · obtain rfl := Option.some.inj (hk.symm.trans heq)
            exact hnew hother
          · obtain ⟨htakes, hseen⟩ := hr e he
            exact ⟨htakes, fun other hother => hseen other (List.mem_cons_of_mem _ hother)⟩
          · rintro ⟨e, he, heq⟩
            exact (hr e he).2 name (List.mem_cons_self ..) (heq.trans hk)
      · rintro ⟨⟨⟨⟨name, f, hk, hfind, haccepts⟩, hseen⟩, hr⟩, hother, hnames⟩
        have hnew : name ∉ seen := fun hmem => hseen name hmem hk
        have hrest : ∃ values, scan true fields (name :: seen) r = .ok values := by
          refine exists_scan_iff.mpr ⟨fun e he => ⟨(hr e he).1, ?_⟩, hnames⟩
          refine List.forall_mem_cons.mpr ⟨fun heq => ?_, (hr e he).2⟩
          exact hother ⟨e, he, heq.trans hk.symm⟩
        rw [scan, textAs_eq_ok.mpr hk]
        dsimp only
        rw [hfind]
        dsimp only
        rw [haccepts, if_neg (by simpa using hnew)]
        exact Result.exists_map_iff.mpr hrest

theorem entries_admits {dialect : Dialect} {want : String} {d : Datum} {es : Entries}
    (h : entries dialect want true fields d = .ok es) : Admits fields es.values d := by
  have hentry : ∀ l, d.untag = .map l → ∀ e ∈ l, ∃ f ∈ fields, e.1.fieldName? = some f.name
      ∧ f.accepts e.2 = .ok () ∧ es.values.lookup f.name = some e.2 := by
    intro l hd e he
    rw [entries, hd] at h
    obtain ⟨values, hscan, rfl⟩ := Result.map_eq_ok.mp h
    obtain ⟨name, f, hkey, hfind⟩ := scan_known hscan e he
    obtain ⟨haccepts, -, hvalue⟩ := scan_field hfind hscan e he hkey
    obtain rfl : f.name = name := by simpa using List.find?_some hfind
    exact ⟨f, List.mem_of_find?_eq_some hfind, hkey, haccepts, hvalue⟩
  constructor
  · intro l hd e he
    obtain ⟨f, hf, hkey, -⟩ := hentry l hd e he
    exact ⟨f, hf, hkey⟩
  · rintro name v ⟨l, hd, k, he, hname⟩
    obtain ⟨f, hf, hkey, haccepts, -⟩ := hentry l hd _ he
    exact ⟨f, hf, Option.some.inj (hkey.symm.trans hname), haccepts⟩
  · rintro name v ⟨l, hd, k, he, hname⟩
    obtain ⟨f, -, hkey, -, hvalue⟩ := hentry l hd _ he
    rwa [Option.some.inj (hkey.symm.trans hname)] at hvalue

/-- What is read of a field is the value that the record holds. -/
theorem default_of_holds {α : Type} {dialect : Dialect} {want : String} {d v : Datum}
    {es : Entries} (h : entries dialect want true fields d = .ok es) {name : String}
    (hv : d.Holds name v) (reader : Reader α) (value : α) :
    es.default name reader value = reader v := by
  rw [Entries.default, (entries_admits h).value name v hv]

section

variable {dialect : Dialect} {want : String} {d : Datum} {es : Entries}

theorem listed_eq_none (hdialect : dialect.positional = false)
    (h : entries dialect want closed fields d = .ok es) : es.listed = none := by
  unfold entries at h
  rw [hdialect] at h
  split at h
  · obtain ⟨values, -, rfl⟩ := Result.map_eq_ok.mp h
    rfl
  · split at h
    · cases h
      rfl
    · cases h
  · cases h
  · cases h

/-- A mapping is not listed by position. -/
theorem listed_of_map {l : List (Datum × Datum)}
    (h : entries dialect want closed fields (.map l) = .ok es) : es.listed = none := by
  obtain ⟨values, -, rfl⟩ := Result.map_eq_ok.mp h
  rfl

/-- A value that was there is one that the record holds. -/
theorem holds_of_lookup (h : entries dialect want closed fields d = .ok es)
    (hlisted : es.listed = none) {name : String} {v : Datum}
    (hv : es.values.lookup name = some v) : d.Holds name v := by
  unfold entries at h
  split at h
  · rename_i l hd
    obtain ⟨values, hscan, rfl⟩ := Result.map_eq_ok.mp h
    exact ⟨l, hd, mem_of_lookup hscan hv⟩
  · split at h
    · cases h
      cases hv
    · cases h
  · split at h
    · obtain ⟨values, -, rfl⟩ := Result.map_eq_ok.mp h
      cases hlisted
    · cases h
  · cases h

theorem lookup_of_holds (h : entries dialect want closed fields d = .ok es) {name : String}
    {f : Field} (hfind : fields.find? (·.name = name) = some f) {v : Datum}
    (hv : d.Holds name v) : es.values.lookup name = some v := by
  obtain ⟨l, hd, k, he, hk⟩ := hv
  rw [entries, hd] at h
  obtain ⟨values, hscan, rfl⟩ := Result.map_eq_ok.mp h
  exact (scan_field hfind hscan _ he hk).2.2

theorem holds_of_required {α : Type} (h : entries dialect want closed fields d = .ok es)
    (hlisted : es.listed = none) {name : String} {reader : Reader α} {a : α}
    (ha : es.required name reader = .ok a) : ∃ v, d.Holds name v ∧ reader v = .ok a := by
  unfold Entries.required at ha
  split at ha
  · rename_i v hv
    exact ⟨v, holds_of_lookup h hlisted hv, ha⟩
  · cases ha
  · cases ha

theorem holds_of_optional {α : Type} (h : entries dialect want closed fields d = .ok es)
    (hlisted : es.listed = none) {name : String} {reader : Reader α} {a : α}
    (ha : es.optional name reader = .ok (some a)) :
    ∃ v, d.Holds name v ∧ v ≠ .null ∧ reader v = .ok a := by
  unfold Entries.optional at ha
  split at ha
  · rename_i v hv
    exact ⟨v, holds_of_lookup h hlisted hv, optional_eq_some.mp ha⟩
  · cases ha
  · cases ha

/-- A field that may be left out is left out, or there but null. -/
theorem optional_eq_none_iff {α : Type} (h : entries dialect want closed fields d = .ok es)
    (hlisted : es.listed = none) {name : String} {f : Field}
    (hfind : fields.find? (·.name = name) = some f) {reader : Reader α} {a : Option α}
    (ha : es.optional name reader = .ok a) : a = none ↔ ∀ v, d.Holds name v → v = .null := by
  constructor
  · rintro rfl v hv
    rw [Entries.optional, lookup_of_holds h hfind hv] at ha
    exact optional_eq_none.mp ha
  · intro hnull
    cases a with
    | none => rfl
    | some b =>
        obtain ⟨v, hv, hne, -⟩ := holds_of_optional h hlisted ha
        exact absurd (hnull v hv) hne

/-- A field that may be left out is read where it is there, and otherwise
has the value of its own. -/
theorem default_eq_ok {α : Type} (h : entries dialect want closed fields d = .ok es)
    (hlisted : es.listed = none) {name : String} {f : Field}
    (hfind : fields.find? (·.name = name) = some f) {reader : Reader α} {value a : α} :
    es.default name reader value = .ok a
      ↔ (∃ v, d.Holds name v ∧ reader v = .ok a) ∨ (∀ v, ¬ d.Holds name v) ∧ a = value := by
  unfold Entries.default
  cases hlookup : es.values.lookup name with
  | some v =>
      have hv := holds_of_lookup h hlisted hlookup
      constructor
      · exact fun ha => .inl ⟨v, hv, ha⟩
      · rintro (⟨v', hv', ha⟩ | ⟨hno, -⟩)
        · obtain rfl := Option.some.inj (hlookup.symm.trans (lookup_of_holds h hfind hv'))
          exact ha
        · exact absurd hv (hno v)
  | none =>
      have hno : ∀ v, ¬ d.Holds name v := fun v hv => by
        rw [lookup_of_holds h hfind hv] at hlookup
        cases hlookup
      constructor
      · exact fun ha => .inr ⟨hno, (Except.ok.inj ha).symm⟩
      · rintro (⟨v, hv, -⟩ | ⟨-, rfl⟩)
        · exact absurd hv (hno v)
        · rfl

end

theorem Admits.unique {values : List (String × Datum)} {d v v' : Datum}
    (h : Admits fields values d) {name : String} (hv : d.Holds name v) (hv' : d.Holds name v') :
    v = v' :=
  Option.some.inj ((h.value name v hv).symm.trans (h.value name v' hv'))

theorem Admits.read_field {α : Type} {values : List (String × Datum)} {d v : Datum}
    (h : Admits fields values d) {name : String} (hv : d.Holds name v) (reader : Reader α)
    (hfield : ∀ f ∈ fields, f.name = name → f = .of name reader) : ∃ a, reader v = .ok a := by
  obtain ⟨f, hf, hname, haccepts⟩ := h.accepted name v hv
  rw [hfield f hf hname] at haccepts
  obtain ⟨a, ha, -⟩ := Result.map_eq_ok.mp haccepts
  exact ⟨a, ha⟩

/-! ## Records that can be read -/

theorem accepts_of {α : Type} {reader : Reader α} {v : Datum} {a : α} (h : reader v = .ok a)
    (name : String) : (Field.of name reader).accepts v = .ok () :=
  Result.map_eq_ok.mpr ⟨a, h, rfl⟩

/-- Every member is of a field that accepts its value. -/
def Fits (fields : List Field) (ms : List (String × Json)) : Prop :=
  ∀ m ∈ ms, ∃ f, fields.find? (·.name = m.1) = some f ∧ f.accepts (.ofJson m.2) = .ok ()

/-- The members of a record as its entries. -/
def ofFields (want : String) (ms : List (String × Json)) : Entries :=
  ⟨ms.map fun m => (m.1, .ofJson m.2), none, want⟩

theorem scan_ofMembers : ∀ {ms : List (String × Json)} {seen : List String}, Fits fields ms →
    (ms.map (·.1)).Nodup → (∀ m ∈ ms, m.1 ∉ seen) →
    scan closed fields seen (Datum.ofMembers ms) = .ok (ms.map fun m => (m.1, .ofJson m.2))
  | [], _, _, _, _ => rfl
  | (name, v) :: r, seen, hfits, hnames, hseen => by
      obtain ⟨hfit, hfits⟩ := List.forall_mem_cons.mp hfits
      obtain ⟨f, hfind, haccepts⟩ := hfit
      obtain ⟨hnew, hseen⟩ := List.forall_mem_cons.mp hseen
      obtain ⟨hother, hnames⟩ := List.nodup_cons.mp hnames
      have hrest : scan closed fields (name :: seen) (Datum.ofMembers r)
          = .ok (r.map fun m => (m.1, .ofJson m.2)) := by
        refine scan_ofMembers hfits hnames fun m hm => ?_
        rw [List.mem_cons, not_or]
        exact ⟨fun heq => hother (List.mem_map.mpr ⟨m, hm, heq⟩), hseen m hm⟩
      have hname : textAs "field identifier" (.text name) = .ok name := rfl
      rw [Datum.ofMembers, scan, hname]
      dsimp only
      rw [hfind]
      dsimp only
      rw [haccepts, hrest, if_neg (by simpa using hnew)]
      rfl

/-- A record with every name once whose values all fit is read as it is. -/
theorem entries_ofFields {dialect : Dialect} {want : String} {ms : List (String × Json)}
    (hfits : Fits fields ms) (hnames : (ms.map (·.1)).Nodup) :
    entries dialect want closed fields (.ofJson (.obj ms)) = .ok (ofFields want ms) := by
  rw [entries, Datum.ofJson, Datum.untag]
  · dsimp only
    rw [scan_ofMembers hfits hnames (by simp)]
    rfl
  · simp

theorem lookup_ofFields {want name : String} {ms : List (String × Json)} {v : Json}
    (h : ms.lookup name = some v) : (ofFields want ms).values.lookup name = some (.ofJson v) := by
  induction ms with
  | nil => cases h
  | cons m r ih =>
      rw [Association.lookup_cons] at h
      rw [ofFields, List.map_cons, Association.lookup_cons]
      split at h
      · cases h
        rw [if_pos (by assumption)]
      · rw [if_neg (by assumption)]
        exact ih h

theorem required_ofFields {α : Type} {want name : String} {ms : List (String × Json)} {v : Json}
    {reader : Reader α} {a : α} (h : ms.lookup name = some v) (hread : reader (.ofJson v) = .ok a) :
    (ofFields want ms).required name reader = .ok a := by
  rw [Entries.required, lookup_ofFields h]
  exact hread

theorem default_ofFields {α : Type} {want name : String} {ms : List (String × Json)} {v : Json}
    {reader : Reader α} {a : α} (h : ms.lookup name = some v) (hread : reader (.ofJson v) = .ok a)
    (value : α) : (ofFields want ms).default name reader value = .ok a := by
  rw [Entries.default, lookup_ofFields h]
  exact hread

/-- A list is read element by element. -/
theorem list_ofJson {α : Type} {dialect : Dialect} {reader : Reader α} {json : α → Json}
    (h : ∀ a, reader (.ofJson (json a)) = .ok a) (as : List α) :
    list dialect reader (.ofJson (.arr (as.map json))) = .ok as := by
  have heach : ∀ as : List α, each reader (Datum.ofElements (as.map json)) = .ok as := by
    intro as
    induction as with
    | nil => rfl
    | cons a r ih =>
        rw [List.map_cons, Datum.ofElements, each, h]
        exact Result.map_eq_ok.mpr ⟨r, ih, rfl⟩
  exact heach as

/-! ## Changing a value -/

variable {name : String} {g : Datum → Datum}

/-- The values of a record, with that of one field changed. -/
def changeValue (name : String) (g : Datum → Datum) (p : String × Datum) : String × Datum :=
  if p.1 = name then (p.1, g p.2) else p

theorem lookup_changeValue (name' : String) : ∀ values : List (String × Datum),
    (values.map (changeValue name g)).lookup name'
      = (values.lookup name').map (if name' = name then g else id)
  | [] => rfl
  | (n, v) :: r => by
      have ih := lookup_changeValue name' r
      have hkey : changeValue name g (n, v) = (n, if n = name then g v else v) := by
        unfold changeValue
        split <;> rfl
      rw [List.map_cons, hkey, Association.lookup_cons, Association.lookup_cons, ih]
      by_cases hn : name' = n
      · subst hn
        by_cases hname : name' = name <;> simp [hname]
      · simp [hn]

/-- Where the changed values are accepted like those before, the reading
goes as before. -/
theorem scan_change : ∀ {es : List (Datum × Datum)} {seen : List String},
    (∀ k v, (k, v) ∈ es → k.fieldName? = some name →
      ∀ f ∈ fields, f.name = name → f.accepts (g v) = f.accepts v) →
    scan closed fields seen (es.map (Datum.changeEntry name g))
      = (scan closed fields seen es).map (List.map (changeValue name g))
  | [], _, _ => rfl
  | (k, v) :: r, seen, hg => by
      have ih : ∀ seen, scan closed fields seen (r.map (Datum.changeEntry name g))
          = (scan closed fields seen r).map (List.map (changeValue name g)) := fun seen =>
        scan_change fun k v he => hg k v (List.mem_cons_of_mem _ he)
      -- Changed or not, the head keeps its key, and its field accepts what it did.
      have hhead : ∃ v', Datum.changeEntry name g (k, v) = (k, v') ∧ ∀ f ∈ fields,
          k.fieldName? = some f.name → f.accepts v' = f.accepts v
            ∧ changeValue name g (f.name, v) = (f.name, v') := by
        by_cases hk : k.fieldName? = some name
        · refine ⟨g v, Datum.changeEntry_of_eq hk, fun f hf hkey => ?_⟩
          have hname : f.name = name := Option.some.inj (hkey.symm.trans hk)
          exact ⟨hg k v (List.mem_cons_self ..) hk f hf hname, if_pos hname⟩
        · refine ⟨v, Datum.changeEntry_of_ne hk, fun f _ hkey => ⟨rfl, ?_⟩⟩
          refine if_neg fun hname : f.name = name => hk ?_
          rw [hkey, hname]
      obtain ⟨v', hentry, hfield⟩ := hhead
      rw [List.map_cons, hentry, scan, scan]
      cases hk : textAs "field identifier" k with
      | error fault => rfl
      | ok name' =>
          dsimp only
          cases hf : fields.find? (·.name = name') with
          | none =>
              dsimp only
              split
              · rfl
              · exact ih seen
          | some f =>
              have hname : f.name = name' := by simpa using List.find?_some hf
              obtain ⟨haccepts, hvalue⟩ := hfield f (List.mem_of_find?_eq_some hf)
                (hname ▸ textAs_eq_ok.mp hk)
              rw [hname] at hvalue
              dsimp only
              rw [haccepts, ih]
              split
              · rfl
              · split
                · rfl
                · cases scan closed fields (name' :: seen) r with
                  | error fault => rfl
                  | ok rest => exact congrArg (fun p => Except.ok (p :: _)) hvalue.symm

/-- The entries of a record, with the value of one field changed. -/
def Entries.change (es : Entries) (name : String) (g : Datum → Datum) : Entries :=
  { es with values := es.values.map (changeValue name g) }

theorem entries_change {dialect : Dialect} {want : String} {d d' : Datum}
    {l : List (Datum × Datum)} (hd : d.untag = .map l)
    (hd' : d'.untag = .map (l.map (Datum.changeEntry name g)))
    (hg : ∀ v, d.Holds name v → ∀ f ∈ fields, f.name = name → f.accepts (g v) = f.accepts v) :
    entries dialect want closed fields d'
      = (entries dialect want closed fields d).map (·.change name g) := by
  have hscan : scan closed fields [] (l.map (Datum.changeEntry name g))
      = (scan closed fields [] l).map (List.map (changeValue name g)) :=
    scan_change fun k v he hk => hg v ⟨l, hd, k, he, hk⟩
  rw [entries, entries, hd, hd']
  dsimp only
  rw [hscan]
  cases scan closed fields [] l <;> rfl

/-- A record that could be read can be read with another value that the
field accepts as well. -/
theorem entries_change_ok {α : Type} {dialect : Dialect} {want : String} {d d' v : Datum}
    {es : Entries} {l : List (Datum × Datum)}
    (h : entries dialect want true fields d = .ok es)
    (hd : d.untag = .map l) (hd' : d'.untag = .map (l.map (Datum.changeEntry name g)))
    (hv : d.Holds name v) (reader : Reader α)
    (hfield : ∀ f ∈ fields, f.name = name → f = .of name reader)
    (hg : (Field.of name reader).accepts (g v) = (Field.of name reader).accepts v) :
    entries dialect want true fields d' = .ok (es.change name g) := by
  rw [entries_change hd hd', h]
  · rfl
  · intro v' hv' f hf hname
    obtain rfl := (entries_admits h).unique hv' hv
    rw [hfield f hf hname]
    exact hg

section

variable {α : Type} {es : Entries} {reader : Reader α}

theorem change_required {name' : String}
    (hg : name' = name → ∀ v, es.values.lookup name' = some v → reader (g v) = reader v) :
    (es.change name g).required name' reader = es.required name' reader := by
  simp only [Entries.required, Entries.change, lookup_changeValue]
  cases hv : es.values.lookup name' with
  | none => rfl
  | some v =>
      by_cases hname : name' = name
      · simpa [hname] using hg hname v hv
      · simp [hname]

theorem change_optional {name' : String}
    (hg : name' = name → ∀ v, es.values.lookup name' = some v →
      Reader.optional reader (g v) = Reader.optional reader v) :
    (es.change name g).optional name' reader = es.optional name' reader := by
  simp only [Entries.optional, Entries.change, lookup_changeValue]
  cases hv : es.values.lookup name' with
  | none => rfl
  | some v =>
      by_cases hname : name' = name
      · simpa [hname] using hg hname v hv
      · simp [hname]

theorem change_default_of_ne {name' : String} (hname : name' ≠ name) (value : α) :
    (es.change name g).default name' reader value = es.default name' reader value := by
  simp only [Entries.default, Entries.change, lookup_changeValue, if_neg hname, Option.map_id,
    id]

end

end Reader

end Conformance
