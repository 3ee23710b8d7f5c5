import Conformance.Proofs.Datum.Mappings
import Conformance.Proofs.Datum.Records
import Conformance.Script.Document

/-!
# Scripts that could be read

What is known of a document once it is read as a script, part by part
from the outside in: the document is a mapping whose other entries are
those of every script (`Script.ofDatum_ok`), each item of its list of
steps could be read as a step (`Step.ofList_ok`), a step is a mapping
with a kind (`Step.ofDatum_ok`), and its other entries are a closed record
of that kind (`Step.read_admits`).
-/

namespace Conformance

open Reader (Admits)

/-! ## Steps -/

namespace Step

variable {capability : String}

/-- The fields of the steps of a kind, besides their name and kind. -/
def fields : String → Option (List Reader.Field)
  | "before" => some [.of "path" Path.reader, .of "action" (Reader.choice .script Verb.names),
      .of "content" (Reader.optional Reader.text),
      .of "mode" (Reader.optional ModeLiteral.reader),
      .of "target" (Reader.optional Path.reader)]
  | "monitor-request" => some [.of "path" Path.reader,
      .of "capability" (Reader.optional Reader.text),
      .of "attributes" (Reader.list .script AttributeKind.reader),
      .of "config" (Reader.jsonObject .script)]
  | "after" => some [.of "expect" (ParcelExpectation.reader .script),
      .of "timeout_ms" (Reader.optional Reader.word64)]
  | "exists" => some [.of "path" Path.reader, .of "exists" Reader.bool]
  | "file-state" => some [.of "path" Path.reader, .of "expect" StateEntries.reader]
  | _ => none

theorem ofReading_eq_ok {α : Type} {x : Except Fault α} {a : α} :
    StepFault.ofReading x = .ok a ↔ x = .ok a := by
  cases x <;> simp [StepFault.ofReading]

theorem contained_eq_ok {p q : Path} :
    Path.contained p = .ok q ↔ p = q ∧ Path.isContained q = true := by
  unfold Path.contained
  split
  · rename_i hp
    constructor
    · intro h
      obtain rfl := Except.ok.inj h
      exact ⟨rfl, hp⟩
    · rintro ⟨rfl, -⟩
      rfl
  · rename_i hp
    constructor
    · intro h
      cases h
    · rintro ⟨rfl, hq⟩
      exact absurd hq hp

theorem admits_of_bind {α : Type} {dialect : Dialect} {want : String}
    {fields : List Reader.Field} {d : Datum} {next : Reader.Entries → Except Fault α} {a : α}
    (h : Reader.entries dialect want true fields d >>= next = .ok a) :
    ∃ values, Admits fields values d := by
  obtain ⟨es, hes, -⟩ := Result.bind_eq_ok.mp h
  exact ⟨_, Reader.entries_admits hes⟩

/-- The entries of a step are a closed record of its kind. -/
theorem read_admits {kind : String} {d : Datum} {directive : Directive}
    (h : read capability kind d = .ok directive) :
    ∃ fs values, fields kind = some fs ∧ Admits fs values d := by
  unfold read at h
  split at h
  · obtain ⟨e, he, -⟩ := Result.bind_eq_ok.mp h
    obtain ⟨values, hadmits⟩ := admits_of_bind (ofReading_eq_ok.mp he)
    exact ⟨_, values, rfl, hadmits⟩
  · obtain ⟨e, he, -⟩ := Result.bind_eq_ok.mp h
    obtain ⟨values, hadmits⟩ := admits_of_bind (ofReading_eq_ok.mp he)
    exact ⟨_, values, rfl, hadmits⟩
  · obtain ⟨e, he, -⟩ := Result.map_eq_ok.mp h
    obtain ⟨values, hadmits⟩ := admits_of_bind (ofReading_eq_ok.mp he)
    exact ⟨_, values, rfl, hadmits⟩
  · obtain ⟨e, he, -⟩ := Result.bind_eq_ok.mp h
    obtain ⟨values, hadmits⟩ := admits_of_bind (ofReading_eq_ok.mp he)
    exact ⟨_, values, rfl, hadmits⟩
  · obtain ⟨e, he, -⟩ := Result.bind_eq_ok.mp h
    obtain ⟨values, hadmits⟩ := admits_of_bind (ofReading_eq_ok.mp he)
    exact ⟨_, values, rfl, hadmits⟩
  · cases h

/-- The entries of a step of some kind, and what is left of them once its
name and its kind are taken out. -/
structure Leaves (kind : String) (es rest : List (Datum × Datum)) : Prop where
  kind_mem : (.text "kind", .text kind) ∈ es
  left : ∀ e ∈ es, e ∈ rest ∨ e.1 = .text "name" ∨ e = (.text "kind", .text kind)
  old : ∀ e ∈ rest, e ∈ es

theorem Leaves.holds {kind : String} {es rest : List (Datum × Datum)} (h : Leaves kind es rest)
    {name : String} (hname : name ≠ "name") (hkind : name ≠ "kind") {v : Datum}
    (hv : (Datum.map es).Holds name v) : (Datum.map rest).Holds name v := by
  obtain ⟨es', hes, key, he, hkey⟩ := hv
  cases hes
  rcases h.left _ he with hleft | rfl | hboth
  · exact ⟨rest, rfl, key, hleft, hkey⟩
  · exact absurd (Option.some.inj hkey).symm hname
  · cases hboth
    exact absurd (Option.some.inj hkey).symm hkind

theorem Leaves.holds_of_rest {kind : String} {es rest : List (Datum × Datum)}
    (h : Leaves kind es rest) {name : String} {v : Datum} (hv : (Datum.map rest).Holds name v) :
    (Datum.map es).Holds name v := by
  obtain ⟨rest', hrest, key, he, hkey⟩ := hv
  cases hrest
  exact ⟨es, rfl, key, h.old _ he, hkey⟩

/-- A step is a mapping with a kind. Its name is taken out of it, and its
kind; what is left is read. -/
theorem ofDatum_ok {index : Nat} {d : Datum} {step : Step}
    (h : ofDatum capability index d = .ok step) :
    ∃ es rest kind, d = .map es ∧ Leaves kind es rest
      ∧ read capability kind (.map rest) = .ok step.directive := by
  have hnamed : ∀ name es, ofDatum.named capability index name es = .ok step →
      ∃ rest kind, (.text "kind", .text kind) ∈ es
        ∧ (∀ e ∈ es, e ∈ rest ∨ e = (.text "kind", .text kind)) ∧ (∀ e ∈ rest, e ∈ es)
        ∧ read capability kind (.map rest) = .ok step.directive := by
    intro name es h
    unfold ofDatum.named at h
    split at h
    · rename_i kind rest hkind
      split at h
      · rename_i directive hread
        cases h
        exact ⟨rest, kind, Datum.mem_of_remove (by rw [hkind]),
          fun e => Datum.mem_of_remove_eq hkind,
          fun e he => Datum.mem_of_mem_remove (by rwa [hkind]), hread⟩
      · cases h
    · cases h
  cases d with
  | map es =>
      have hok : ∃ name, ofDatum.named capability index name (Datum.remove "name" es).2
          = .ok step := by
        simp only [ofDatum] at h
        split at h
        · exact ⟨_, h⟩
        · exact ⟨_, h⟩
        · cases h
      obtain ⟨name, hok⟩ := hok
      obtain ⟨rest, kind, hkind, hrest, hold, hread⟩ := hnamed name _ hok
      refine ⟨es, rest, kind, rfl, ⟨Datum.mem_of_mem_remove hkind, fun e he => ?_,
        fun e he => Datum.mem_of_mem_remove (hold e he)⟩, hread⟩
      rcases Datum.mem_remove "name" he with hleft | ⟨hkey, -⟩
      · rcases hrest e hleft with h | h
        · exact .inl h
        · exact .inr (.inr h)
      · exact .inr (.inl hkey)
  | null | bool _ | number _ | text _ | list _ | tagged _ _ => cases h

/-- No kind of step has a field for what is taken out of every step. -/
theorem fields_ne_kind {kind : String} {fs : List Reader.Field} (h : fields kind = some fs) :
    ∀ f ∈ fs, f.name ≠ "kind" := by
  unfold fields at h
  split at h
  all_goals cases h
  all_goals simp [Reader.Field.of]

/-- A step that could be read has one kind. -/
theorem Leaves.kind_unique {kind kind' : String} {es rest : List (Datum × Datum)}
    (h : Leaves kind' es rest) {directive : Directive}
    (hread : read capability kind' (.map rest) = .ok directive)
    (hkind : (.text "kind", .text kind) ∈ es) : kind' = kind := by
  rcases h.left _ hkind with hleft | hname | hboth
  · obtain ⟨fs, values, hfs, hadmits⟩ := read_admits hread
    obtain ⟨f, hf, hkey⟩ := hadmits.known rest rfl _ hleft
    exact absurd (Option.some.inj hkey).symm (fields_ne_kind hfs f hf)
  · simp at hname
  · cases hboth
    rfl

/-- A step with a kind is a closed record of that kind. -/
theorem ofDatum_admits {index : Nat} {es : List (Datum × Datum)} {step : Step} {kind : String}
    (h : ofDatum capability index (.map es) = .ok step)
    (hkind : (.text "kind", .text kind) ∈ es) :
    ∃ rest fs values, fields kind = some fs ∧ Admits fs values (.map rest)
      ∧ Leaves kind es rest := by
  obtain ⟨es', rest, kind', hes, hleaves, hread⟩ := ofDatum_ok h
  cases hes
  obtain rfl := hleaves.kind_unique hread hkind
  obtain ⟨fs, values, hfs, hadmits⟩ := read_admits hread
  exact ⟨rest, fs, values, hfs, hadmits, hleaves⟩

/-- Each item of a list of steps is read as the step of its place, and
there are no other steps. -/
theorem ofList_ok : ∀ {items : List Datum} {index : Nat} {steps : List Step},
    ofList capability index items = .ok steps → steps.length = items.length
      ∧ ∀ i x, items[i]? = some x →
        ∃ step, steps[i]? = some step ∧ ofDatum capability (index + i) x = .ok step
  | [], _, _, h => by
      cases h
      exact ⟨rfl, by simp⟩
  | d :: r, index, steps, h => by
      rw [ofList] at h
      cases hd : ofDatum capability index d with
      | error fault =>
          rw [hd] at h
          cases h
      | ok step =>
          rw [hd] at h
          obtain ⟨rest, hrest, rfl⟩ := Result.map_eq_ok.mp h
          obtain ⟨hlength, hitems⟩ := ofList_ok hrest
          refine ⟨congrArg (· + 1) hlength, fun i x hx => ?_⟩
          cases i with
          | zero =>
              obtain rfl := Option.some.inj hx
              exact ⟨step, rfl, hd⟩
          | succ i =>
              obtain ⟨step', hstep', hx'⟩ := hitems i x hx
              refine ⟨step', hstep', ?_⟩
              rwa [Nat.add_assoc, Nat.add_comm 1] at hx'

end Step

/-! ## Documents -/

namespace Script

theorem takeText_ok {key : String} {es rest : List (Datum × Datum)} {value : Option String}
    (h : takeText key es = .ok (value, rest)) : rest = (Datum.remove key es).2 := by
  unfold takeText at h
  split at h
  · rename_i hremove
    cases h
    rw [hremove]
  · rename_i hremove
    cases h
    rw [hremove]
  · rename_i hremove
    cases h
    rw [hremove]
  · cases h

/-- What is left of a document once the entries of every script are taken
out of it. -/
def remainder (es : List (Datum × Datum)) : List (Datum × Datum) :=
  (["name", "description", "plugin"] ++ ownKeys).foldl (fun es key => (Datum.remove key es).2) es

theorem mem_foldl_remove {e : Datum × Datum} : ∀ {keys : List String} {es : List (Datum × Datum)},
    e ∈ es → (∀ key ∈ keys, e.1 ≠ .text key) →
      e ∈ keys.foldl (fun es key => (Datum.remove key es).2) es
  | [], _, he, _ => he
  | key :: keys, es, he, hkeys => by
      have hleft : e ∈ (Datum.remove key es).2 :=
        (Datum.mem_remove key he).resolve_right fun h => hkeys key (List.mem_cons_self ..) h.1
      rw [List.foldl_cons]
      exact mem_foldl_remove hleft fun key' h => hkeys key' (List.mem_cons_of_mem _ h)

theorem mem_of_mem_foldl_remove {e : Datum × Datum} : ∀ {keys : List String}
    {es : List (Datum × Datum)},
    e ∈ keys.foldl (fun es key => (Datum.remove key es).2) es → e ∈ es
  | [], _, he => he
  | _ :: _, _, he => Datum.mem_of_mem_remove (mem_of_mem_foldl_remove he)

/-- What is taken out under some keys and what is left are all there
was. -/
theorem perm_foldl_remove : ∀ (keys : List String) (es : List (Datum × Datum)),
    ∃ taken, es.Perm (taken ++ keys.foldl (fun es key => (Datum.remove key es).2) es)
      ∧ ∀ e ∈ taken, ∃ key ∈ keys, e.1 = .text key
  | [], es => ⟨[], .refl es, by simp⟩
  | key :: keys, es => by
      obtain ⟨taken, hperm, htaken⟩ := perm_foldl_remove keys (Datum.remove key es).2
      have hmore : ∀ e ∈ taken, ∃ key' ∈ key :: keys, e.1 = .text key' := fun e he =>
        (htaken e he).imp fun _ h => ⟨List.mem_cons_of_mem _ h.1, h.2⟩
      rw [List.foldl_cons]
      cases hlookup : Datum.lookup key es with
      | none =>
          rw [Datum.remove_of_none hlookup] at hperm ⊢
          exact ⟨taken, hperm, hmore⟩
      | some v =>
          refine ⟨(.text key, v) :: taken, (Datum.perm_remove hlookup).trans (hperm.cons _), ?_⟩
          exact List.forall_mem_cons.mpr ⟨⟨key, List.mem_cons_self .., rfl⟩, hmore⟩

theorem mem_remainder {es : List (Datum × Datum)} {e : Datum × Datum} (he : e ∈ es)
    (hkey : ∀ key ∈ ownKeys, e.1 ≠ .text key) : e ∈ remainder es := by
  refine mem_foldl_remove he fun key h => ?_
  rcases List.mem_append.mp h with h | h
  · have hown : ["name", "description", "plugin"] ⊆ ownKeys := by decide
    exact hkey key (hown h)
  · exact hkey key h

/-- What is taken out of every script is no field of its body. -/
theorem holds_remainder_iff {es : List (Datum × Datum)} {name : String} (hname : name ∉ ownKeys)
    {v : Datum} : (Datum.map (remainder es)).Holds name v ↔ (Datum.map es).Holds name v := by
  constructor
  · rintro ⟨_, ⟨⟩, k, he, hk⟩
    exact ⟨es, rfl, k, mem_of_mem_foldl_remove he, hk⟩
  · rintro ⟨_, ⟨⟩, k, he, hk⟩
    refine ⟨_, rfl, k, mem_remainder he fun key hkey heq => ?_, hk⟩
    rw [show k = .text key from heq] at hk
    exact hname (Option.some.inj hk ▸ hkey)

/-- The fields of the body of a script. -/
def fields : List Reader.Field :=
  [.of "capability" Reader.text, .of "steps" (Reader.list .script fun step => .ok step)]

theorem each_self : ∀ xs : List Datum, Reader.each (fun step => .ok step) xs = .ok xs
  | [] => rfl
  | x :: xs => by
      rw [Reader.each, each_self xs]
      rfl

theorem list_self {v : Datum} {xs : List Datum} (h : v.untag = .list xs) :
    Reader.list .script (fun step => .ok step) v = .ok xs := by
  rw [Reader.list, h]
  exact each_self xs

/-- The body of a script is a closed record, and its steps are the items
of the list that it holds. -/
theorem bodyReader_ok {d : Datum} {capability : String} {items : List Datum}
    (h : bodyReader d = .ok (capability, items)) :
    (∃ values, Admits fields values d)
      ∧ ∀ v xs, d.Holds "steps" v → v.untag = .list xs → items = xs := by
  obtain ⟨es, hes, h⟩ := Result.bind_eq_ok.mp h
  obtain ⟨cap, -, h⟩ := Result.bind_eq_ok.mp h
  obtain ⟨steps, hsteps, h⟩ := Result.bind_eq_ok.mp h
  obtain ⟨-, rfl⟩ := Prod.mk.injEq .. |>.mp (Except.ok.inj h)
  refine ⟨⟨_, Reader.entries_admits hes⟩, fun v xs hv hxs => ?_⟩
  rw [Reader.default_of_holds hes hv, Reader.list, hxs] at hsteps
  exact Except.ok.inj (hsteps.symm.trans (each_self xs))

/-- If there are any steps, the body holds them. -/
theorem holds_of_bodyReader {d : Datum} {capability : String} {items : List Datum}
    (h : bodyReader d = .ok (capability, items)) (hne : items ≠ []) :
    ∃ v, d.Holds "steps" v ∧ v.untag = .list items := by
  obtain ⟨es, hes, h⟩ := Result.bind_eq_ok.mp h
  obtain ⟨cap, -, h⟩ := Result.bind_eq_ok.mp h
  obtain ⟨steps, hsteps, h⟩ := Result.bind_eq_ok.mp h
  obtain ⟨-, rfl⟩ := Prod.mk.injEq .. |>.mp (Except.ok.inj h)
  rw [Reader.Entries.default] at hsteps
  split at hsteps
  · rename_i v hv
    refine ⟨v, Reader.holds_of_lookup hes (Reader.listed_eq_none rfl hes) hv, ?_⟩
    rw [Reader.list] at hsteps
    split at hsteps
    · rename_i xs hxs
      rw [hxs, Except.ok.inj ((each_self xs).symm.trans hsteps)]
    · cases hsteps
      exact absurd rfl hne
    · cases hsteps
  · cases hsteps
    exact absurd rfl hne

theorem stepsOf_eq_ok {es : List (Datum × Datum)} {steps : List Step} :
    stepsOf es = .ok steps ↔ ∃ capability items, bodyReader (.map es) = .ok (capability, items)
      ∧ items ≠ [] ∧ Step.ofList capability 0 items = .ok steps := by
  unfold stepsOf
  constructor
  · intro h
    split at h
    · cases h
    · cases h
    · rename_i capability items hnone hbody
      split at h
      · rename_i hlist
        cases h
        exact ⟨capability, items, hbody, hnone, hlist⟩
      · cases h
  · rintro ⟨capability, items, hbody, hne, hlist⟩
    rw [hbody]
    cases items with
    | nil => exact absurd rfl hne
    | cons x xs => simp only [hlist]

/-- A script is a mapping. What every script has is taken out of it; what
is left is read as its body. -/
theorem ofDatum_ok {d : Datum} {s : Script} (h : ofDatum d = .ok s) :
    ∃ es capability items, d = .map es
      ∧ bodyReader (.map (remainder es)) = .ok (capability, items)
      ∧ Step.ofList capability 0 items = .ok s.steps := by
  cases d with
  | map es =>
      simp only [ofDatum] at h
      obtain ⟨kind, -, h⟩ := Result.bind_eq_ok.mp h
      obtain ⟨⟨name, r₁⟩, hname, h⟩ := Result.bind_eq_ok.mp h
      obtain ⟨⟨description, r₂⟩, hdescription, h⟩ := Result.bind_eq_ok.mp h
      obtain ⟨⟨plugin, r₃⟩, hplugin, h⟩ := Result.bind_eq_ok.mp h
      obtain ⟨timeout, -, h⟩ := Result.bind_eq_ok.mp h
      obtain ⟨steps, hsteps, h⟩ := Result.bind_eq_ok.mp h
      cases h
      obtain rfl := takeText_ok hname
      obtain rfl := takeText_ok hdescription
      obtain rfl := takeText_ok hplugin
      obtain ⟨capability, items, hbody, -, hlist⟩ := stepsOf_eq_ok.mp hsteps
      exact ⟨es, capability, items, rfl, hbody, hlist⟩
  | null | bool _ | number _ | text _ | list _ | tagged _ _ => cases h

end Script

end Conformance
