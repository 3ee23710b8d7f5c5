import Conformance.Datum

/-!
# Taking entries out of mappings

`Datum.remove` takes the first entry under a key out of a mapping and
moves the last one into its place. So what is left are the other entries in
another order (`perm_remove`): nothing comes to it, and nothing goes but
the entry that is taken. Where no text comes twice among the keys,
everything with another key is left (`Distinct.mem_remove_iff`).
-/

namespace Conformance.Datum

variable {key : String} {es : List (Datum × Datum)} {e : Datum × Datum}

/-- Only the text itself is the same key as a text. -/
theorem same_text {k : Datum} : same (.text key) k = true ↔ k = .text key := by
  cases k <;> simp [same, eq_comm]

theorem mem_of_lookup {v : Datum} (h : lookup key es = some v) : (.text key, v) ∈ es := by
  obtain ⟨e, hfind, rfl⟩ := Option.map_eq_some_iff.mp h
  have hsame := List.find?_some hfind
  rw [← same_text.mp hsame]
  exact List.mem_of_find?_eq_some hfind

/-- Either nothing is found; or the last entry moves into the place of the
one that is found. -/
theorem remove_cases (key : String) (es : List (Datum × Datum)) :
    remove key es = (none, es) ∧ (∀ e ∈ es, e.1 ≠ .text key)
      ∨ ∃ i found init last, es = init ++ [last] ∧ es[i]? = some found ∧ found.1 = .text key
        ∧ remove key es = (some found.2, if i = init.length then init else init.set i last) := by
  unfold remove
  cases hfind : es.findIdx? fun e => same (.text key) e.1 with
  | none =>
      refine .inl ⟨rfl, fun e he hkey => ?_⟩
      have hno := List.findIdx?_eq_none_iff.mp hfind e he
      rw [same_text.mpr hkey] at hno
      cases hno
  | some i =>
      right
      obtain ⟨hi, hsame, -⟩ := List.findIdx?_eq_some_iff_getElem.mp hfind
      have hne : es ≠ [] := List.ne_nil_of_length_pos (by omega)
      obtain ⟨init, last, rfl⟩ : ∃ init last, es = init ++ [last] :=
        ⟨_, _, (List.dropLast_concat_getLast hne).symm⟩
      refine ⟨i, _, init, last, rfl, List.getElem?_eq_getElem hi, same_text.mp hsame, ?_⟩
      simp [List.getElem?_eq_getElem hi]

theorem perm_set_last {α : Type} {a b : α} : ∀ {l : List α} {i : Nat}, l[i]? = some a →
    (l ++ [b]).Perm (a :: l.set i b)
  | x :: l, 0, h => by
      obtain rfl := Option.some.inj h
      exact (List.perm_append_singleton b l).cons x
  | x :: l, i + 1, h => by
      have ih : (l ++ [b]).Perm (a :: l.set i b) := perm_set_last h
      exact (ih.cons x).trans (.swap a x _)

/-- What is taken out is what is looked up. -/
theorem fst_remove : (remove key es).1 = lookup key es := by
  unfold remove lookup
  rw [List.find?_eq_bind_findIdx?_getElem?]
  cases hfind : es.findIdx? fun e => same (.text key) e.1 with
  | none => rfl
  | some i =>
      cases hlast : es.getLast? with
      | none =>
          rw [List.getLast?_eq_none_iff] at hlast
          subst hlast
          rfl
      | some last => rfl

/-- What is left are the other entries, in some order. -/
theorem perm_remove {v : Datum} (h : lookup key es = some v) :
    es.Perm ((.text key, v) :: (remove key es).2) := by
  rcases remove_cases key es with ⟨hnone, -⟩ | ⟨i, found, init, last, rfl, hfound, hkey, heq⟩
  · rw [← fst_remove, hnone] at h
    cases h
  · rw [← fst_remove, heq] at h
    obtain ⟨k, v⟩ := found
    obtain rfl := hkey
    cases h
    rw [heq]
    dsimp only
    split
    · rename_i hi
      rw [hi, List.getElem?_concat_length] at hfound
      obtain rfl := Option.some.inj hfound
      exact List.perm_append_singleton _ _
    · rename_i hi
      have hlt := (List.getElem?_eq_some_iff.mp hfound).1
      rw [List.length_append, List.length_singleton] at hlt
      rw [List.getElem?_append_left (by omega)] at hfound
      exact perm_set_last hfound

theorem lookup_eq_none_iff : lookup key es = none ↔ ∀ e ∈ es, e.1 ≠ .text key := by
  rw [lookup, Option.map_eq_none_iff, List.find?_eq_none]
  simp only [same_text]

theorem remove_of_none (h : lookup key es = none) : remove key es = (none, es) := by
  rcases remove_cases key es with ⟨hnone, -⟩ | ⟨i, found, init, last, rfl, hfound, hkey, -⟩
  · exact hnone
  · exact absurd hkey (lookup_eq_none_iff.mp h found (List.mem_of_getElem? hfound))

/-- An entry is still there, or it is the one that was taken. -/
theorem mem_remove (key : String) (he : e ∈ es) :
    e ∈ (remove key es).2 ∨ e.1 = .text key ∧ (remove key es).1 = some e.2 := by
  cases hlookup : lookup key es with
  | none =>
      rw [remove_of_none hlookup]
      exact .inl he
  | some v =>
      rw [fst_remove, hlookup]
      rcases List.mem_cons.mp ((perm_remove hlookup).mem_iff.mp he) with rfl | he
      · exact .inr ⟨rfl, rfl⟩
      · exact .inl he

theorem mem_of_remove_eq {v : Datum} {rest : List (Datum × Datum)}
    (h : remove key es = (some v, rest)) (he : e ∈ es) : e ∈ rest ∨ e = (.text key, v) := by
  have hor := mem_remove key he
  rw [h] at hor
  exact hor.imp id fun hboth => Prod.ext hboth.1 (Option.some.inj hboth.2).symm

theorem mem_of_mem_remove (he : e ∈ (remove key es).2) : e ∈ es := by
  cases hlookup : lookup key es with
  | none => rwa [remove_of_none hlookup] at he
  | some v => exact (perm_remove hlookup).mem_iff.mpr (List.mem_cons_of_mem _ he)

theorem mem_of_remove {v : Datum} (h : (remove key es).1 = some v) : (.text key, v) ∈ es :=
  mem_of_lookup (fst_remove.symm.trans h)

section

variable {f : Datum × Datum → Datum × Datum} (hf : ∀ e, (f e).1 = e.1)
include hf

theorem lookup_map (hkey : ∀ e, e.1 = .text key → f e = e) :
    lookup key (es.map f) = lookup key es := by
  rw [lookup, List.find?_map]
  simp only [Function.comp_def, hf, lookup, Option.map_map]
  refine Option.map_congr fun e he => ?_
  have hsame := List.find?_some he
  rw [hkey e (same_text.mp hsame)]

/-- Where other values change and all keys stay, the same entry is taken. -/
theorem remove_map (hkey : ∀ e, e.1 = .text key → f e = e) :
    remove key (es.map f) = ((remove key es).1, (remove key es).2.map f) := by
  unfold remove
  rw [List.findIdx?_map]
  simp only [Function.comp_def, hf]
  cases hfind : es.findIdx? fun e => same (.text key) e.1 with
  | none => rfl
  | some i =>
      obtain ⟨hi, hsame, -⟩ := List.findIdx?_eq_some_iff_getElem.mp hfind
      have hne : es ≠ [] := List.ne_nil_of_length_pos (by omega)
      obtain ⟨init, last, rfl⟩ : ∃ init last, es = init ++ [last] :=
        ⟨_, _, (List.dropLast_concat_getLast hne).symm⟩
      have hvalue : ((init ++ [last]).map f)[i]? = some (init ++ [last])[i] := by
        rw [List.getElem?_map, List.getElem?_eq_getElem hi, Option.map_some,
          hkey _ (same_text.mp hsame)]
      have hlast : ((init ++ [last]).map f).getLast? = some (f last) := by simp
      have hdrop : ((init ++ [last]).map f).dropLast = init.map f := by simp
      simp only [hvalue, hlast, hdrop, List.getElem?_eq_getElem hi, List.getLast?_concat,
        List.dropLast_concat, List.length_map, Option.map_some]
      split
      · rfl
      · rw [List.map_set]

end

/-! ## Keys that come once -/

/-- No text comes twice among the keys. -/
def Distinct (es : List (Datum × Datum)) : Prop :=
  es.Pairwise fun e e' => ∀ key, e.1 = .text key → e'.1 ≠ .text key

theorem Distinct.of_perm {es' : List (Datum × Datum)} (h : Distinct es) (hperm : es.Perm es') :
    Distinct es' :=
  hperm.pairwise h fun hother key hkey' hkey => hother key hkey hkey'

/-- What is left has another key, and is everything that has. -/
theorem Distinct.mem_remove_iff (h : Distinct es) :
    e ∈ (remove key es).2 ↔ e ∈ es ∧ e.1 ≠ .text key := by
  cases hlookup : lookup key es with
  | none =>
      rw [remove_of_none hlookup]
      exact ⟨fun he => ⟨he, lookup_eq_none_iff.mp hlookup e he⟩, And.left⟩
  | some v =>
      have hperm := perm_remove hlookup
      obtain ⟨hother, -⟩ := List.pairwise_cons.mp (h.of_perm hperm)
      rw [hperm.mem_iff, List.mem_cons]
      constructor
      · exact fun he => ⟨.inr he, hother e he key rfl⟩
      · rintro ⟨rfl | he, hne⟩
        · exact absurd rfl hne
        · exact he

theorem distinct_remove (h : Distinct es) (key : String) : Distinct (remove key es).2 := by
  cases hlookup : lookup key es with
  | none => rwa [remove_of_none hlookup]
  | some v => exact (List.pairwise_cons.mp (h.of_perm (perm_remove hlookup))).2

theorem Distinct.lookup_eq_some_iff (h : Distinct es) {v : Datum} :
    lookup key es = some v ↔ (.text key, v) ∈ es := by
  refine ⟨mem_of_lookup, fun hmem => ?_⟩
  cases hlookup : lookup key es with
  | none => exact absurd rfl (lookup_eq_none_iff.mp hlookup _ hmem)
  | some v' =>
      have hperm := perm_remove hlookup
      obtain ⟨hother, -⟩ := List.pairwise_cons.mp (h.of_perm hperm)
      rcases List.mem_cons.mp (hperm.mem_iff.mp hmem) with heq | hmem
      · rw [(Prod.mk.inj heq).2]
      · exact absurd rfl (hother _ hmem key rfl)

theorem Distinct.lookup_remove (h : Distinct es) {key' : String} (hne : key' ≠ key) :
    lookup key' (remove key es).2 = lookup key' es := by
  ext v
  rw [(distinct_remove h key).lookup_eq_some_iff, h.lookup_eq_some_iff, h.mem_remove_iff,
    and_iff_left (by simpa using hne)]

end Conformance.Datum
