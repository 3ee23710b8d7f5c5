/-!
# Lists of pairs

Validators and file systems keep what they know in a list of pairs, of
which the first one with a key counts. The lemmas say what a look-up
finds after each way in which such a list is changed.
-/

namespace Conformance.Association

variable {α β : Type} [BEq α] [LawfulBEq α] [DecidableEq α]

theorem lookup_cons (k : α) (b : β) (l : List (α × β)) (a : α) :
    ((k, b) :: l).lookup a = if a = k then some b else l.lookup a := by
  rw [List.lookup_cons]
  by_cases h : a = k
  · simp [h]
  · rw [beq_false_of_ne h, if_neg h]

/-- A key that was taken out is not found any more; the others are. -/
theorem lookup_filter_ne (k a : α) : ∀ l : List (α × β),
    (l.filter (·.1 ≠ k)).lookup a = if a = k then none else l.lookup a
  | [] => by simp
  | (k', b) :: l => by
      have ih := lookup_filter_ne k a l
      rw [List.filter_cons, lookup_cons]
      by_cases hk : k' = k
      · rw [if_neg (by simp [hk]), ih]
        by_cases ha : a = k
        · simp [ha]
        · simp [ha, hk]
      · rw [if_pos (by simp [hk]), lookup_cons, ih]
        by_cases ha : a = k
        · subst ha
          simp [Ne.symm hk]
        · simp [ha]

/-- Every pair of a key gets another value, where there is one. -/
theorem lookup_map_key (k : α) (b : β) (a : α) : ∀ l : List (α × β),
    (l.map fun e => if e.1 = k then (k, b) else e).lookup a
      = if a = k then (l.lookup a).map fun _ => b else l.lookup a
  | [] => by simp
  | (k', b') :: l => by
      have ih := lookup_map_key k b a l
      rw [List.map_cons, lookup_cons]
      by_cases hk : k' = k
      · rw [if_pos hk, lookup_cons, ih, hk]
        by_cases ha : a = k
        · simp [ha]
        · simp [ha]
      · rw [if_neg hk, lookup_cons, ih]
        by_cases ha : a = k
        · subst ha
          simp [Ne.symm hk]
        · simp [ha]

end Conformance.Association
