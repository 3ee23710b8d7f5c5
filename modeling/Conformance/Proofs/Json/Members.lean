import Mathlib.Data.List.Nodup
import Conformance.Json
import Conformance.Proofs.Association

/-!
# Objects by their members

Members are put into an object one after the other. So under a key stands
the last member of that key (`get?_object`), and equal objects have the
same members under every key, whatever the order in which they were given
(`get?_congr`). Where the keys differ every member stays
(`get?_object_iff`).
-/

namespace Conformance.Json

theorem lookup_insert (key k : String) (value : Json) : ∀ ms : List (String × Json),
    (insert key value ms).lookup k = if k = key then some value else ms.lookup k
  | [] => Association.lookup_cons ..
  | (l, v) :: r => by
      have ih := lookup_insert key k value r
      rw [insert]
      split
      case isTrue heq =>
        subst heq
        rw [Association.lookup_cons, Association.lookup_cons]
        split <;> rfl
      case isFalse hne =>
        split
        · exact Association.lookup_cons ..
        · rw [Association.lookup_cons, Association.lookup_cons, ih]
          by_cases hl : k = l
          · subst hl
            simp [Ne.symm hne]
          · simp [hl]

theorem lookup_foldl_insert (k : String) : ∀ (ms acc : List (String × Json)),
    (ms.foldl (fun acc m => insert m.1 m.2 acc) acc).lookup k
      = (ms.reverse.lookup k).or (acc.lookup k)
  | [], acc => by simp
  | (l, v) :: r, acc => by
      rw [List.foldl_cons, lookup_foldl_insert k r, lookup_insert, List.reverse_cons,
        List.lookup_append, Association.lookup_cons]
      cases r.reverse.lookup k with
      | some w => rfl
      | none => by_cases hl : k = l <;> simp [hl]

/-- Under a key stands the last member of the key. -/
theorem get?_object (k : String) (ms : List (String × Json)) :
    (object ms).get? k = ms.reverse.lookup k := by
  show (ms.foldl (fun acc m => insert m.1 m.2 acc) []).lookup k = _
  rw [lookup_foldl_insert]
  simp

theorem get?_congr {ms ns : List (String × Json)} (h : object ms = object ns) (k : String) :
    ms.reverse.lookup k = ns.reverse.lookup k := by
  rw [← get?_object, ← get?_object, h]

theorem mem_insert {key : String} {value : Json} {m : String × Json} :
    ∀ {ms : List (String × Json)}, m ∈ insert key value ms → m = (key, value) ∨ m ∈ ms
  | [], h => .inl (List.mem_singleton.mp h)
  | (k, v) :: r, h => by
      rw [insert] at h
      split at h
      · exact (List.mem_cons.mp h).imp_right (List.mem_cons_of_mem _)
      · split at h
        · exact List.mem_cons.mp h
        · rcases List.mem_cons.mp h with rfl | h
          · exact .inr (List.mem_cons_self ..)
          · exact (mem_insert h).imp_right (List.mem_cons_of_mem _)

theorem mem_of_mem_foldl_insert {m : String × Json} : ∀ {ms acc : List (String × Json)},
    m ∈ ms.foldl (fun acc m => insert m.1 m.2 acc) acc → m ∈ ms ∨ m ∈ acc
  | [], _, h => .inr h
  | n :: r, acc, h => by
      rcases mem_of_mem_foldl_insert (List.foldl_cons .. ▸ h) with h | h
      · exact .inl (List.mem_cons_of_mem _ h)
      · rcases mem_insert h with rfl | h
        · exact .inl (List.mem_cons_self ..)
        · exact .inr h

theorem lookup_eq_some_iff_mem {k : String} {v : Json} : ∀ {ms : List (String × Json)},
    (ms.map Prod.fst).Nodup → (ms.lookup k = some v ↔ (k, v) ∈ ms)
  | [], _ => by simp
  | (l, w) :: r, h => by
      obtain ⟨hl, hr⟩ := List.nodup_cons.mp h
      have ih := lookup_eq_some_iff_mem (v := v) hr (k := k)
      rw [Association.lookup_cons, List.mem_cons, Prod.mk.injEq]
      by_cases hk : k = l
      · subst hk
        have hnone : (k, v) ∉ r := fun hmem => hl (List.mem_map.mpr ⟨(k, v), hmem, rfl⟩)
        simp [hnone, eq_comm]
      · simp [hk, ih]

/-- Of members with different keys each stands under its key. -/
theorem get?_object_iff {ms : List (String × Json)} (h : (ms.map Prod.fst).Nodup) {k : String}
    {v : Json} : (object ms).get? k = some v ↔ (k, v) ∈ ms := by
  have hreverse : (ms.reverse.map Prod.fst).Nodup := by
    rw [List.map_reverse]
    exact List.nodup_reverse.mpr h
  rw [get?_object, lookup_eq_some_iff_mem hreverse, List.mem_reverse]

end Conformance.Json
