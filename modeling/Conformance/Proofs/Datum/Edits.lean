import Conformance.Proofs.Datum.Records

/-!
# Changes inside documents

A way leads from a document to the values inside it, turn by turn: to the
value of a field, or to an item of a list (`Leads`). `edit` changes what a
way leads to and nothing else. Tags on the way are looked through, and
they stay.
-/

namespace Conformance.Datum

/-- A turn on the way to a value inside a document. -/
inductive Turn where
  | key (name : String)
  | item (index : Nat)
  deriving Repr, DecidableEq

/-- Changes the value below any number of tags. -/
def underTags (g : Datum → Datum) : Datum → Datum
  | .tagged t v => .tagged t (underTags g v)
  | v => g v

/-- Changes the values that a way leads to. -/
def edit (g : Datum → Datum) : List Turn → Datum → Datum
  | [] => underTags g
  | .key name :: way => underTags fun
    | .map es => .map (es.map (changeEntry name (edit g way)))
    | v => v
  | .item i :: way => underTags fun
    | .list xs => .list (xs.modify i (edit g way))
    | v => v

/-- A mapping with one more entry; any other value stays as it is. -/
def withEntry (i : Nat) (k v : Datum) : Datum → Datum
  | .map es => .map (es.take i ++ (k, v) :: es.drop i)
  | d => d

/-- A way leads to a value. -/
inductive Leads : Datum → List Turn → Datum → Prop
  | here {d : Datum} : Leads d [] d
  | key {d v x : Datum} {name : String} {way : List Turn} (h : d.Holds name v)
    (rest : Leads v way x) : Leads d (.key name :: way) x
  | item {d v x : Datum} {xs : List Datum} {i : Nat} {way : List Turn} (h : d.untag = .list xs)
    (hi : xs[i]? = some v) (rest : Leads v way x) : Leads d (.item i :: way) x

variable {g : Datum → Datum} {way : List Turn} {name : String}

theorem Leads.of_key {d x : Datum} (h : d.Leads (.key name :: way) x) :
    ∃ v, d.Holds name v ∧ v.Leads way x := by
  cases h with
  | key h rest => exact ⟨_, h, rest⟩

theorem Leads.of_item {d x : Datum} {i : Nat} (h : d.Leads (.item i :: way) x) :
    ∃ xs v, d.untag = .list xs ∧ xs[i]? = some v ∧ v.Leads way x := by
  cases h with
  | item h hi rest => exact ⟨_, _, h, hi, rest⟩

theorem untag_underTags : ∀ d : Datum, (underTags g d).untag = (g d.untag).untag
  | .tagged _ v => untag_underTags v
  | .null | .bool _ | .number _ | .text _ | .list _ | .map _ => rfl

theorem untag_edit_key {d : Datum} {es : List (Datum × Datum)} (h : d.untag = .map es) :
    (edit g (.key name :: way) d).untag = .map (es.map (changeEntry name (edit g way))) := by
  rw [edit, untag_underTags, h]
  rfl

theorem untag_edit_item {d : Datum} {i : Nat} {xs : List Datum} (h : d.untag = .list xs) :
    (edit g (.item i :: way) d).untag = .list (xs.modify i (edit g way)) := by
  rw [edit, untag_underTags, h]
  rfl

theorem untag_withEntry {d k v : Datum} {i : Nat} {es : List (Datum × Datum)}
    (h : d.untag = .map es) :
    (edit (withEntry i k v) [] d).untag = .map (es.take i ++ (k, v) :: es.drop i) := by
  rw [edit, untag_underTags, h]
  rfl

theorem mem_withEntry {i : Nat} {e e' : Datum × Datum} {es : List (Datum × Datum)} :
    e ∈ es.take i ++ e' :: es.drop i ↔ e = e' ∨ e ∈ es := by
  rw [List.mem_append, List.mem_cons, ← or_assoc, or_comm (b := e = e'), or_assoc,
    ← List.mem_append, List.take_append_drop]

/-- The edited value is held in the place of the one before. -/
theorem Holds.edit {d v : Datum} (h : d.Holds name v) :
    (d.edit g (.key name :: way)).Holds name (v.edit g way) := by
  obtain ⟨es, hd, k, he, hk⟩ := h
  refine ⟨_, untag_edit_key hd, k, ?_, hk⟩
  have hmem := List.mem_map_of_mem (f := changeEntry name (Datum.edit g way)) he
  rwa [changeEntry_of_eq hk] at hmem

end Conformance.Datum
