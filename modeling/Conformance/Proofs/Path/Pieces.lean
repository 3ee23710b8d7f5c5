import Conformance.Path

/-!
# Pieces of paths

Splitting a path at its separators and joining pieces again undo each
other. Of the pieces the empty ones only separate; the others are the
`solid` ones, and with one empty step for a separator at the end they
are the steps along which the operating system walks. The steps of a
path seen from a directory are those of the two, one after the other
(`steps_append`).
-/

namespace Conformance.Path

/-! ## Split and join -/

theorem split_ne_nil : ∀ p : Path, split p ≠ []
  | [] => by simp [split]
  | b :: r => by
      rw [split]
      split
      · simp
      · split <;> simp

theorem split_cons_separator (p : Path) : split (separator :: p) = [] :: split p := by
  simp [split]

theorem split_cons {b : UInt8} (hb : b ≠ separator) (p : Path) :
    ∃ piece pieces, split p = piece :: pieces ∧ split (b :: p) = (b :: piece) :: pieces := by
  cases hs : split p with
  | nil => exact absurd hs (split_ne_nil p)
  | cons piece pieces => exact ⟨piece, pieces, rfl, by simp [split, hb, hs]⟩

theorem split_append_separator : ∀ a b : Path,
    split (a ++ separator :: b) = split a ++ split b
  | [], b => by rw [List.nil_append, split_cons_separator]; rfl
  | x :: a, b => by
      have ih := split_append_separator a b
      rw [List.cons_append]
      by_cases hx : x = separator
      · rw [hx, split_cons_separator, split_cons_separator, ih, List.cons_append]
      · obtain ⟨piece, pieces, hs, hc⟩ := split_cons hx a
        obtain ⟨piece', pieces', hs', hc'⟩ := split_cons hx (a ++ separator :: b)
        rw [ih, hs] at hs'
        obtain ⟨rfl, rfl⟩ := List.cons.injEq .. |>.mp hs'
        rw [hc, hc']
        rfl

theorem split_of_not_mem : ∀ {piece : Bytes}, separator ∉ piece → split piece = [piece]
  | [], _ => rfl
  | b :: r, h => by
      obtain ⟨hb, hr⟩ := not_or.mp (mt List.mem_cons.mpr h)
      obtain ⟨piece, pieces, hs, hc⟩ := split_cons (Ne.symm hb) r
      rw [split_of_not_mem hr] at hs
      obtain ⟨rfl, rfl⟩ := List.cons.injEq .. |>.mp hs
      exact hc

theorem not_mem_of_mem_split : ∀ {p : Path} {piece : Bytes}, piece ∈ split p → separator ∉ piece
  | [], piece, h => by
      obtain rfl : piece = [] := by simpa [split] using h
      exact List.not_mem_nil
  | b :: r, piece, h => by
      by_cases hb : b = separator
      · rw [hb, split_cons_separator] at h
        rcases List.mem_cons.mp h with rfl | h
        · exact List.not_mem_nil
        · exact not_mem_of_mem_split h
      · obtain ⟨first, rest, hs, hc⟩ := split_cons hb r
        rw [hc] at h
        rcases List.mem_cons.mp h with rfl | h
        · have hfirst : separator ∉ first :=
            not_mem_of_mem_split (p := r) (by rw [hs]; exact List.mem_cons_self ..)
          exact fun hmem => (List.mem_cons.mp hmem).elim (fun heq => hb heq.symm) hfirst
        · exact not_mem_of_mem_split (p := r) (by rw [hs]; exact List.mem_cons_of_mem _ h)

theorem split_join : ∀ {pieces : List Bytes}, pieces ≠ [] →
    (∀ piece ∈ pieces, separator ∉ piece) → split (join pieces) = pieces
  | [], hne, _ => absurd rfl hne
  | [piece], _, h => split_of_not_mem (h piece (List.mem_cons_self ..))
  | piece :: next :: pieces, _, h => by
      have hne : next :: pieces ≠ [] := by simp
      have ih := split_join hne fun q hq => h q (List.mem_cons_of_mem _ hq)
      rw [join, split_append_separator, split_of_not_mem (h piece (List.mem_cons_self ..)), ih]
      · rfl
      · simp

theorem join_split : ∀ p : Path, join (split p) = p
  | [] => rfl
  | b :: r => by
      have ih := join_split r
      by_cases hb : b = separator
      · rw [hb, split_cons_separator]
        cases hs : split r with
        | nil => exact absurd hs (split_ne_nil r)
        | cons piece pieces =>
            rw [hs] at ih
            rw [join, ih, List.nil_append]
            simp
      · obtain ⟨piece, pieces, hs, hc⟩ := split_cons hb r
        rw [hs] at ih
        rw [hc, ← ih]
        cases pieces with
        | nil => rfl
        | cons next rest => rfl

/-- A path is absolute when its first piece is empty, unless there is
nothing else. -/
theorem isAbsolute_iff (p : Path) :
    isAbsolute p = true ↔ p ≠ [] ∧ (split p).head? = some [] := by
  cases p with
  | nil => simp [isAbsolute]
  | cons b r =>
      by_cases hb : b = separator
      · simp [isAbsolute, hb, split_cons_separator]
      · obtain ⟨piece, pieces, -, hc⟩ := split_cons hb r
        simp [isAbsolute, hb, hc]

/-! ## Steps -/

/-- The pieces that are not empty. -/
def solid (p : Path) : List Bytes := (split p).filter (· ≠ [])

/-- The empty step of a separator at the end. -/
def slashStep (p : Path) : List Bytes :=
  if solid p ≠ [] ∧ (split p).getLast? = some [] then [[]] else []

theorem steps_eq (p : Path) : steps p = solid p ++ slashStep p := by
  unfold steps slashStep solid
  by_cases h : (split p).filter (· ≠ []) ≠ [] ∧ (split p).getLast? = some []
  · rw [if_pos h, if_pos (by simpa using h)]
  · rw [if_neg h, if_neg (by simpa using h), List.append_nil]

theorem mem_slashStep {p : Path} {s : Bytes} (h : s ∈ slashStep p) : s = [] := by
  unfold slashStep at h
  split at h
  · simpa using h
  · cases h

theorem steps_of_last_ne_nil {p : Path} (h : ∀ s, (split p).getLast? = some s → s ≠ []) :
    steps p = solid p := by
  have hslash : slashStep p = [] := if_neg fun hc => h [] hc.2 rfl
  rw [steps_eq, hslash, List.append_nil]

theorem mem_solid {p : Path} {s : Bytes} : s ∈ solid p ↔ s ∈ split p ∧ s ≠ [] := by
  simp [solid]

/-- The first piece of a relative path is not empty. -/
theorem split_of_relative {p : Path} (hp : p ≠ []) (hrel : isAbsolute p = false) :
    ∃ piece pieces, split p = piece :: pieces ∧ piece ≠ [] := by
  obtain ⟨piece, pieces, hs⟩ := List.exists_cons_of_ne_nil (split_ne_nil p)
  refine ⟨piece, pieces, hs, ?_⟩
  rintro rfl
  have habs := (isAbsolute_iff p).mpr ⟨hp, by rw [hs]; rfl⟩
  rw [hrel] at habs
  cases habs

theorem solid_ne_nil {p : Path} (hp : p ≠ []) (hrel : isAbsolute p = false) : solid p ≠ [] := by
  obtain ⟨piece, pieces, hs, hpiece⟩ := split_of_relative hp hrel
  exact List.ne_nil_of_mem (mem_solid.mpr ⟨hs ▸ List.mem_cons_self .., hpiece⟩)

/-- A path has a separator just if it is absolute or has more than one
step. -/
theorem separator_mem_iff (p : Path) :
    separator ∈ p ↔ isAbsolute p = true ∨ 1 < (steps p).length := by
  constructor
  · intro hsep
    by_cases hrel : isAbsolute p = false
    · right
      obtain ⟨piece, pieces, hs, hpiece⟩ := split_of_relative (List.ne_nil_of_mem hsep) hrel
      have hpieces : pieces ≠ [] := by
        rintro rfl
        have hp := join_split p
        rw [hs] at hp
        obtain rfl : piece = p := hp
        exact not_mem_of_mem_split (hs ▸ List.mem_singleton_self piece) hsep
      -- Behind the first piece there is another one, or a separator at the end.
      have hsolid : solid p = piece :: pieces.filter (· ≠ []) := by
        rw [solid, hs, List.filter_cons_of_pos (by simpa using hpiece)]
      obtain ⟨init, last, rfl⟩ : ∃ init last, pieces = init ++ [last] :=
        ⟨_, _, (List.dropLast_concat_getLast hpieces).symm⟩
      rw [steps_eq, List.length_append, hsolid]
      by_cases hlast : last = []
      · have hend : (split p).getLast? = some [] := by
          rw [hs, ← List.cons_append, List.getLast?_concat, hlast]
        have hslash : slashStep p = [[]] := if_pos ⟨by simp [hsolid], hend⟩
        simp [hslash]
      · have hkept : (init ++ [last]).filter (· ≠ []) = init.filter (· ≠ []) ++ [last] := by
          simp [hlast]
        rw [hkept, List.length_cons, List.length_append, List.length_singleton]
        omega
    · exact .inl (by simpa using hrel)
  · rintro (habs | hlength)
    · exact List.mem_of_mem_head? (by simpa [isAbsolute] using habs)
    · refine Classical.not_not.mp fun hsep => ?_
      have hs := split_of_not_mem hsep
      by_cases hnil : p = []
      · subst hnil
        exact absurd hlength (by decide)
      · rw [steps_of_last_ne_nil (by simpa [hs] using hnil), solid, hs] at hlength
        simp [hnil] at hlength

theorem mem_join {b : UInt8} (hb : b ≠ separator) : ∀ {pieces : List Bytes},
    b ∈ join pieces → ∃ piece ∈ pieces, b ∈ piece
  | [], h => by cases h
  | [piece], h => ⟨piece, List.mem_cons_self .., h⟩
  | piece :: next :: pieces, h => by
      rw [join] at h
      · rcases List.mem_append.mp h with h | h
        · exact ⟨piece, List.mem_cons_self .., h⟩
        · rcases List.mem_cons.mp h with h | h
          · exact absurd h hb
          · obtain ⟨q, hq, hbq⟩ := mem_join hb h
            exact ⟨q, List.mem_cons_of_mem _ hq, hbq⟩
      · simp

theorem mem_of_mem_join {b : UInt8} : ∀ {pieces : List Bytes} {piece : Bytes},
    piece ∈ pieces → b ∈ piece → b ∈ join pieces
  | [], _, h, _ => by cases h
  | [_], _, h, hb => by
      obtain rfl := List.mem_singleton.mp h
      exact hb
  | first :: next :: pieces, piece, h, hb => by
      rw [join]
      · rcases List.mem_cons.mp h with rfl | h
        · exact List.mem_append_left _ hb
        · exact List.mem_append_right _ (List.mem_cons_of_mem _ (mem_of_mem_join h hb))
      · simp

/-- The bytes of a path are those of its solid pieces, and separators. -/
theorem mem_iff_mem_solid {b : UInt8} (hb : b ≠ separator) (p : Path) :
    b ∈ p ↔ ∃ s ∈ solid p, b ∈ s := by
  constructor
  · intro h
    rw [← join_split p] at h
    obtain ⟨piece, hpiece, hbp⟩ := mem_join hb h
    exact ⟨piece, mem_solid.mpr ⟨hpiece, List.ne_nil_of_mem hbp⟩, hbp⟩
  · rintro ⟨s, hs, hbs⟩
    rw [← join_split p]
    exact mem_of_mem_join (mem_solid.mp hs).1 hbs

/-! ## A path seen from a directory -/

theorem append_of_relative (root : Path) {p : Path} (hrel : isAbsolute p = false) :
    append root p = root ++ p ∧ (root = [] ∨ ∃ r, root = r ++ [separator])
      ∨ append root p = root ++ separator :: p := by
  unfold append
  rw [if_neg (by simp [hrel])]
  split
  · rename_i h
    refine .inl ⟨rfl, ?_⟩
    simp only [Bool.or_eq_true, decide_eq_true_eq] at h
    exact h.imp id fun hlast => List.getLast?_eq_some_iff.mp hlast
  · exact .inr rfl

theorem split_append {root p : Path} (hroot : root ≠ []) (hrel : isAbsolute p = false) :
    ∃ pieces, split (append root p) = pieces ++ split p
      ∧ pieces.filter (· ≠ []) = solid root ∧ pieces.head? = (split root).head? := by
  rcases append_of_relative root hrel with ⟨heq, rfl | ⟨r, rfl⟩⟩ | heq
  · exact absurd rfl hroot
  · refine ⟨split r, ?_, ?_, ?_⟩
    · rw [heq, List.append_assoc, List.singleton_append, split_append_separator]
    · rw [solid, split_append_separator]
      simp [split]
    · rw [split_append_separator, List.head?_append]
      cases hr : split r with
      | nil => exact absurd hr (split_ne_nil r)
      | cons piece pieces => rfl
  · exact ⟨split root, by rw [heq, split_append_separator], rfl, rfl⟩

/-- **Steps from a directory.** First the solid pieces of the directory,
then the steps of the path. -/
theorem steps_append {root p : Path} (hroot : root ≠ []) (hp : p ≠ [])
    (hrel : isAbsolute p = false) : steps (append root p) = solid root ++ steps p := by
  obtain ⟨pieces, hsplit, hsolid, -⟩ := split_append hroot hrel
  have hsolid' : solid (append root p) = solid root ++ solid p := by
    rw [solid, hsplit, List.filter_append, hsolid]
    rfl
  have hne := solid_ne_nil hp hrel
  have hlast : (split (append root p)).getLast? = (split p).getLast? := by
    rw [hsplit, List.getLast?_append]
    cases hs : (split p).getLast? with
    | none => exact absurd (List.getLast?_eq_none_iff.mp hs) (split_ne_nil p)
    | some s => rfl
  rw [steps_eq, steps_eq, hsolid', slashStep, slashStep, hsolid', hlast, List.append_assoc]
  simp [hne]

/-- Nothing but a separator comes behind a directory in front of nothing. -/
theorem solid_append_nil {root : Path} (hroot : root ≠ []) :
    solid (append root []) = solid root := by
  obtain ⟨pieces, hsplit, hsolid, -⟩ := split_append (p := []) hroot rfl
  rw [solid, hsplit, List.filter_append, hsolid]
  exact List.append_nil _

theorem append_ne_nil {root p : Path} (hp : p ≠ []) : append root p ≠ [] := by
  unfold append
  split
  · exact hp
  · split
    · exact List.append_ne_nil_of_right_ne_nil _ hp
    · simp

theorem isAbsolute_append {root p : Path} (hroot : root ≠ []) (hrel : isAbsolute p = false) :
    isAbsolute (append root p) = isAbsolute root := by
  cases root with
  | nil => exact absurd rfl hroot
  | cons b r =>
      rcases append_of_relative (b :: r) hrel with ⟨heq, -⟩ | heq
      · rw [heq]
        rfl
      · rw [heq]
        rfl

end Conformance.Path
