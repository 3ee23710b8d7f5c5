import Conformance.Proofs.Path.Parent

/-!
# Components of contained paths

Whether a path is contained is decided by its components alone. What that
is good for shows where the path is seen from a directory: the components
of the whole are those of the directory, and behind them the names of the
path (`components_append`). So a contained path stays below whatever root
it is seen from (`staysBelow_iff`).

The file name of a path is its last component, and the walk along the path
takes it as one of its steps, with only idle ones behind it
(`fileName_steps`).
-/

namespace Conformance.Path

theorem component?_ne_root (s : Bytes) : component? s ≠ some .root := by
  unfold component?
  split
  · simp
  · split <;> simp

theorem root_mem_components {p : Path} : .root ∈ components p ↔ isAbsolute p = true := by
  unfold components
  dsimp only
  constructor
  · intro h
    rcases List.mem_append.mp h with h | h
    · split at h
      · assumption
      · split at h <;> simp at h
    · obtain ⟨s, -, hs⟩ := List.mem_filterMap.mp h
      exact absurd hs (component?_ne_root s)
  · intro habs
    exact List.mem_append_left _ (by simp [habs])

theorem up_mem_components {p : Path} :
    .up ∈ components p ↔ .up ∈ (split p).filterMap component? := by
  unfold components
  dsimp only
  constructor
  · intro h
    rcases List.mem_append.mp h with h | h
    · split at h
      · simp at h
      · split at h <;> simp at h
    · exact h
  · exact List.mem_append_right _

/-- Of the four sorts of components, a contained path lacks the root and
the way up. -/
theorem isContained_iff {p : Path} :
    isContained p = true ↔ p ≠ [] ∧ isAbsolute p = false ∧ .up ∉ components p := by
  rw [isContained, Bool.and_eq_true, decide_eq_true_eq, List.all_eq_true]
  refine and_congr_right fun _ => ⟨fun hall => ⟨?_, fun hup => ?_⟩, ?_⟩
  · rw [← Bool.not_eq_true, ← root_mem_components]
    intro hroot
    exact absurd (hall .root hroot) (by simp)
  · exact absurd (hall .up hup) (by simp)
  · rintro ⟨hrel, hup⟩ c hc
    cases c with
    | root => exact absurd (root_mem_components.mp hc) (by simp [hrel])
    | up => exact absurd hc hup
    | here => rfl
    | name n => rfl

/-! ## Below a root -/

/-- Empty pieces are no components. -/
theorem filterMap_component?_filter (pieces : List Bytes) :
    (pieces.filter (· ≠ [])).filterMap component? = pieces.filterMap component? := by
  induction pieces with
  | nil => rfl
  | cons s pieces ih =>
      by_cases hs : s = []
      · have hnone : component? s = none := component?_eq_none.mpr (.inl hs)
        rw [List.filterMap_cons_none hnone, ← ih, List.filter_cons_of_neg (by simp [hs])]
      · rw [List.filter_cons_of_pos (by simpa using hs), List.filterMap_cons, List.filterMap_cons,
          ih]

theorem component?_eq_name {s n : Bytes} (h : component? s = some (.name n)) :
    s = n ∧ n ≠ dotDot := by
  unfold component? at h
  split at h
  · cases h
  · split at h
    · cases h
    · rename_i hdots
      cases h
      exact ⟨rfl, hdots⟩

/-- The last name of a path is one of its steps, and what stands behind it
is no component. -/
theorem fileName_steps {p : Path} {name : Bytes} (h : fileName p = some name) :
    ∃ before after, steps p = before ++ name :: after ∧ component? name = some (.name name)
      ∧ ∀ s ∈ after, component? s = none := by
  have hlast : (components p).getLast? = some (.name name) := by
    unfold fileName at h
    split at h
    · rename_i n hn
      cases h
      exact hn
    · cases h
  -- What a path starts with is no name, so the last one is a piece.
  have hpieces : ((solid p).filterMap component?).getLast? = some (.name name) := by
    rw [solid, filterMap_component?_filter]
    unfold components at hlast
    dsimp only at hlast
    rw [List.getLast?_append] at hlast
    cases hrest : ((split p).filterMap component?).getLast? with
    | some c => simpa [hrest] using hlast
    | none =>
        rw [hrest, Option.none_or] at hlast
        split at hlast
        · cases hlast
        · split at hlast <;> cases hlast
  obtain ⟨init, hinit⟩ := List.getLast?_eq_some_iff.mp hpieces
  obtain ⟨before, rest, hsolid, -, hrest⟩ := List.filterMap_eq_append_iff.mp hinit
  obtain ⟨idle, s, after, rfl, hidle, hs, hafter⟩ := List.filterMap_eq_cons_iff.mp hrest
  obtain ⟨rfl, -⟩ := component?_eq_name hs
  refine ⟨before ++ idle, after ++ slashStep p, ?_, hs, fun t ht => ?_⟩
  · rw [steps_eq, hsolid]
    simp
  · rcases List.mem_append.mp ht with ht | ht
    · exact List.filterMap_eq_nil_iff.mp hafter t ht
    · exact component?_eq_none.mpr (.inl (mem_slashStep ht))

/-- **Components from a directory.** First the components of the
directory, then those of the path, but for the dot that it may start
with. -/
theorem components_append {root p : Path} (hroot : root ≠ []) (hrel : isAbsolute p = false) :
    components (append root p) = components root ++ (split p).filterMap component? := by
  obtain ⟨pieces, hsplit, hsolid, hhead⟩ := split_append hroot hrel
  have hpieces : pieces.filterMap component? = (split root).filterMap component? := by
    rw [← filterMap_component?_filter pieces, hsolid, solid, filterMap_component?_filter]
  have hfirst : (split (append root p)).head? = (split root).head? := by
    rw [hsplit, List.head?_append, hhead]
    cases hs : split root with
    | nil => exact absurd hs (split_ne_nil root)
    | cons s r => rfl
  unfold components
  dsimp only
  rw [isAbsolute_append hroot hrel, hfirst, hsplit, List.filterMap_append, hpieces,
    List.append_assoc]

/-- A path that leads down from every root by its components. -/
structure StaysBelow (p : Path) : Prop where
  ne_nil : p ≠ []
  relative : isAbsolute p = false
  never_up : .up ∉ components p
  below : ∀ root, isAbsolute root = true →
    ∃ rest, components (append root p) = components root ++ rest ∧ .up ∉ rest

theorem staysBelow_iff {p : Path} : p.StaysBelow ↔ isContained p = true := by
  constructor
  · intro h
    exact isContained_iff.mpr ⟨h.ne_nil, h.relative, h.never_up⟩
  · intro h
    obtain ⟨hne, hrel, hup⟩ := isContained_iff.mp h
    refine ⟨hne, hrel, hup, fun root habs => ?_⟩
    have hroot : root ≠ [] := by
      rintro rfl
      cases habs
    exact ⟨_, components_append hroot hrel, fun hrest => hup (up_mem_components.mpr hrest)⟩

end Conformance.Path
