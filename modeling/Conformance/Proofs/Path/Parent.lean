import Conformance.Proofs.Path.Pieces

/-!
# The parent of a path

The lexical parent of a path drops its last component, and what stands
behind it and before it without being a component. The operating system
walks along all of that. `below_parent` relates the two readings: the
steps of a path are those of its parent, some dots, the name of the last
component, and a tail of dots and one separator, which the parent does
not show.
-/

namespace Conformance.Path

/-! ## Pieces that are no components -/

theorem component?_eq_none {s : Bytes} : component? s = none ↔ s = [] ∨ s = dot := by
  unfold component?
  split
  · rename_i h
    simpa using h
  · rename_i h
    simp only [Bool.or_eq_true, decide_eq_true_eq] at h
    constructor
    · intro hnone
      split at hnone <;> cases hnone
    · exact fun hor => absurd hor h

theorem trimPieces_append (pieces : List Bytes) :
    ∃ junk, pieces = trimPieces pieces ++ junk ∧ ∀ s ∈ junk, component? s = none := by
  refine ⟨(pieces.reverse.takeWhile fun s => (component? s).isNone).reverse, ?_, ?_⟩
  · rw [trimPieces, ← List.reverse_append, List.takeWhile_append_dropWhile,
      List.reverse_reverse]
  · intro s hs
    have hall := List.all_takeWhile (p := fun s => (component? s).isNone) (l := pieces.reverse)
    have hs' := List.all_eq_true.mp hall s (List.mem_reverse.mp hs)
    simpa using hs'

theorem trimPieces_last {pieces : List Bytes} {s : Bytes}
    (h : (trimPieces pieces).getLast? = some s) : component? s ≠ none := by
  rw [trimPieces, List.getLast?_reverse] at h
  have hnot := List.head?_dropWhile_not (fun s => (component? s).isNone) pieces.reverse
  rw [h] at hnot
  intro hnone
  simp [hnone] at hnot

/-! ## What a path starts with -/

/-- What a path starts with, by the length of it and the steps it is. -/
inductive Leading : Path → Nat → List Bytes → Prop
  | root (p : Path) : Leading (separator :: p) 1 []
  | here : Leading dot 1 [dot]
  | below (p : Path) : Leading (dot ++ separator :: p) 1 [dot]
  | bare {p : Path} (hrel : isAbsolute p = false) (hdot : (split p).head? ≠ some dot) :
    Leading p 0 []

theorem leading (p : Path) : ∃ steps, Leading p (lead p) steps := by
  by_cases habs : isAbsolute p = true
  · cases p with
    | nil => cases habs
    | cons b r =>
        obtain rfl : b = separator := by simpa [isAbsolute] using habs
        exact ⟨[], by simpa [lead, habs] using Leading.root r⟩
  · rw [Bool.not_eq_true] at habs
    by_cases hdot : (split p).head? = some dot
    · have hlead : lead p = 1 := by simp [lead, hdot]
      obtain ⟨rest, hsplit⟩ := List.head?_eq_some_iff.mp hdot
      have hp := join_split p
      rw [hsplit] at hp
      rw [hlead]
      cases rest with
      | nil =>
          obtain rfl : dot = p := hp
          exact ⟨[dot], .here⟩
      | cons next rest =>
          rw [join] at hp
          · rw [← hp]
            exact ⟨[dot], .below _⟩
          · simp
    · exact ⟨[], by simpa [lead, habs, hdot] using Leading.bare habs hdot⟩

section

variable {p : Path} {n : Nat} {first : List Bytes}

theorem Leading.first_eq (h : Leading p n first) :
    first = [] ∨ (first = [dot] ∧ isAbsolute p = false) := by
  cases h with
  | root p => exact .inl rfl
  | here => exact .inr ⟨rfl, rfl⟩
  | below p => exact .inr ⟨rfl, rfl⟩
  | bare hrel hdot => exact .inl rfl

theorem Leading.solid (h : Leading p n first) :
    Path.solid p = first ++ (split (p.drop n)).filter (· ≠ []) := by
  cases h with
  | root p => simp [Path.solid, split_cons_separator]
  | here => rfl
  | below p =>
      have hbody : (dot ++ separator :: p).drop 1 = separator :: p := rfl
      rw [Path.solid, hbody, split_append_separator, split_cons_separator, split_of_not_mem]
      · rfl
      · decide
  | bare hrel hdot => rfl

/-- A path that is cut behind one of its components has the steps up to
there. -/
theorem Leading.steps_cut (h : Leading p n first) {kept rest : List Bytes}
    (hsplit : split (p.drop n) = kept ++ rest)
    (hlast : ∀ s, kept.getLast? = some s → component? s ≠ none) :
    steps (p.take n ++ join kept) = first ++ kept.filter (· ≠ []) := by
  have hmem : ∀ s ∈ kept, separator ∉ s := fun s hs =>
    not_mem_of_mem_split (p := p.drop n) (hsplit ▸ List.mem_append_left _ hs)
  have hne : ∀ s, kept.getLast? = some s → s ≠ [] := fun s hs hnil =>
    hlast s hs (component?_eq_none.mpr (.inl hnil))
  by_cases hkept : kept = []
  · subst hkept
    cases h with
    | root p => rfl
    | here => rfl
    | below p => rfl
    | bare hrel hdot => rfl
  · cases h with
    | root p =>
        have hcut : split (separator :: join kept) = [] :: kept := by
          rw [split_cons_separator, split_join hkept hmem]
        have htake : (separator :: p).take 1 ++ join kept = separator :: join kept := rfl
        rw [htake, steps_of_last_ne_nil, Path.solid, hcut]
        · rfl
        · intro s hs
          rw [hcut, List.getLast?_cons_of_ne_nil hkept] at hs
          exact hne s hs
    | here =>
        obtain ⟨s, kept', rfl⟩ := List.exists_cons_of_ne_nil hkept
        have hnil : split (dot.drop 1) = [[]] := rfl
        rw [hnil, List.cons_append, List.cons.injEq] at hsplit
        obtain ⟨rfl, hrest⟩ := hsplit
        obtain ⟨rfl, -⟩ := List.append_eq_nil_iff.mp hrest.symm
        exact absurd rfl (hne [] rfl)
    | below p =>
        obtain ⟨s, kept', rfl⟩ := List.exists_cons_of_ne_nil hkept
        have hbody : split ((dot ++ separator :: p).drop 1) = [] :: split p :=
          split_cons_separator p
        rw [hbody, List.cons_append, List.cons.injEq] at hsplit
        obtain ⟨rfl, -⟩ := hsplit
        have hkept' : kept' ≠ [] := by
          rintro rfl
          exact hne [] rfl rfl
        have htake : (dot ++ separator :: p).take 1 ++ join ([] :: kept')
            = dot ++ separator :: join kept' := by
          rw [join]
          · rfl
          · exact hkept'
        have hcut : split (dot ++ separator :: join kept') = dot :: kept' := by
          rw [split_append_separator,
            split_join hkept' fun s hs => hmem s (List.mem_cons_of_mem _ hs)]
          rfl
        rw [htake, steps_of_last_ne_nil, Path.solid, hcut]
        · rfl
        · intro s hs
          rw [hcut, List.getLast?_cons_of_ne_nil hkept'] at hs
          exact hne s (by rw [List.getLast?_cons_of_ne_nil hkept']; exact hs)
    | bare hrel hdot =>
        have hcut := split_join hkept hmem
        have htake : p.take 0 ++ join kept = join kept := rfl
        rw [htake, steps_of_last_ne_nil, Path.solid, hcut]
        · rfl
        · rw [hcut]
          exact hne

theorem Leading.isAbsolute_cut (h : Leading p n first) {kept rest : List Bytes}
    (hsplit : split (p.drop n) = kept ++ rest)
    (hlast : ∀ s, kept.getLast? = some s → component? s ≠ none) :
    isAbsolute (p.take n ++ join kept) = isAbsolute p := by
  cases h with
  | root p => rfl
  | here => rfl
  | below p => rfl
  | bare hrel hdot =>
      have htake : p.take 0 ++ join kept = join kept := rfl
      have hbody : split p = kept ++ rest := hsplit
      rw [htake, hrel, ← Bool.not_eq_true, isAbsolute_iff]
      rintro ⟨hjoin, hhead⟩
      have hkept : kept ≠ [] := by
        rintro rfl
        exact hjoin rfl
      rw [split_join hkept fun s hs =>
        not_mem_of_mem_split (hbody ▸ List.mem_append_left _ hs)] at hhead
      have hp : p ≠ [] := by
        rintro rfl
        obtain ⟨s, kept', rfl⟩ := List.exists_cons_of_ne_nil hkept
        have hnil : split [] = [[]] := rfl
        rw [hnil, List.cons_append, List.cons.injEq] at hbody
        obtain ⟨rfl, hrest⟩ := hbody
        obtain ⟨rfl, -⟩ := List.append_eq_nil_iff.mp hrest.symm
        exact hlast [] rfl (component?_eq_none.mpr (.inl rfl))
      have habs := (isAbsolute_iff p).mpr ⟨hp, by rw [hbody, List.head?_append, hhead]; rfl⟩
      rw [hrel] at habs
      cases habs

/-- Nothing is left of a path in front of its first piece. -/
theorem Leading.cut_eq_nil (h : Leading p n first) {j rest : List Bytes} {kept : List Bytes}
    (hsplit : split (p.drop n) = kept ++ (j ++ rest))
    (hlast : ∀ s, kept.getLast? = some s → component? s ≠ none)
    (hj : ∀ s ∈ j, component? s = none) (hrest : ∃ s ∈ rest, component? s ≠ none)
    (hcut : p.take n ++ join kept = []) : j = [] := by
  cases h with
  | root p => cases hcut
  | here => cases hcut
  | below p => cases hcut
  | bare hrel hdot =>
      have hbody : split p = kept ++ (j ++ rest) := hsplit
      have hjoin : join kept = [] := hcut
      have hkept : kept = [] := by
        refine Classical.not_not.mp fun hkept => ?_
        have hsame := split_join hkept fun s hs =>
          not_mem_of_mem_split (hbody ▸ List.mem_append_left _ hs)
        rw [hjoin] at hsame
        exact hlast [] (hsame ▸ rfl) (component?_eq_none.mpr (.inl rfl))
      subst hkept
      rw [List.nil_append] at hbody
      cases j with
      | nil => rfl
      | cons s j =>
          have hhead : (split p).head? = some s := by rw [hbody]; rfl
          rcases component?_eq_none.mp (hj s (List.mem_cons_self ..)) with rfl | rfl
          · have hp : p ≠ [] := by
              rintro rfl
              obtain ⟨s, hs, hcomp⟩ := hrest
              have hmem : s ∈ split [] := by
                rw [hbody]
                exact List.mem_append_right _ hs
              obtain rfl := List.mem_singleton.mp hmem
              exact hcomp rfl
            have habs := (isAbsolute_iff p).mpr ⟨hp, hhead⟩
            rw [hrel] at habs
            cases habs
          · exact absurd hhead hdot

end

/-! ## Steps of the parent -/

/-- A path is a name below another path, with dots before the name and a
tail behind it. -/
structure Below (p up : Path) (dots : List Bytes) (name : Bytes) (tail : List Bytes) : Prop where
  along : steps p = steps up ++ dots ++ name :: tail
  only_dots : ∀ s ∈ dots, s = dot
  component : component? name ≠ none
  idle : ∀ s ∈ tail, component? s = none
  absolute : isAbsolute up = isAbsolute p
  bare : up = [] → dots = []
  /-- The path above ends with a component, or is just the dot that the
  path starts with. -/
  trimmed : ∀ s, (steps up).getLast? = some s →
    component? s ≠ none ∨ (steps up = [dot] ∧ isAbsolute up = false)

theorem Below.ne_nil {p up : Path} {dots tail : List Bytes} {name : Bytes}
    (hb : Below p up dots name tail) : p ≠ [] := by
  rintro rfl
  have halong := hb.along
  have hnil : steps [] = [] := rfl
  rw [hnil] at halong
  simp at halong

theorem Below.name_ne {p up : Path} {dots tail : List Bytes} {name : Bytes}
    (hb : Below p up dots name tail) : name ≠ [] ∧ name ≠ dot :=
  not_or.mp fun hor => hb.component (component?_eq_none.mpr hor)

/-- The last component of a path is in any rest of its steps that has
one. -/
theorem Below.split_rest {p up : Path} {dots tail a r : List Bytes} {name : Bytes}
    (hb : Below p up dots name tail) (hp : steps p = a ++ r)
    (hr : ∃ s ∈ r, component? s ≠ none) :
    ∃ c, steps up ++ dots = a ++ c ∧ r = c ++ name :: tail := by
  have halong := hb.along
  rw [hp] at halong
  rcases List.append_eq_append_iff.mp halong with ⟨c, hc, hrest⟩ | ⟨c, hc, hrest⟩
  · exact ⟨c, hc, hrest⟩
  · cases c with
    | nil => exact ⟨[], by rw [hc]; simp, hrest.symm⟩
    | cons s c =>
        obtain ⟨-, rfl⟩ := List.cons.injEq .. |>.mp hrest
        obtain ⟨s, hs, hcomp⟩ := hr
        exact absurd (hb.idle s (List.mem_append_right _ hs)) hcomp

/-- **Parents.** A path that has a component has a parent, and is a name
below it. -/
theorem below_parent {p : Path} (hc : ∃ s ∈ steps p, component? s ≠ none) :
    ∃ up dots name tail, parent p = some up ∧ Below p up dots name tail := by
  obtain ⟨first, hlead⟩ := leading p
  have hfirst : ∀ s ∈ first, component? s = none := by
    rcases hlead.first_eq with rfl | ⟨rfl, -⟩ <;> simp [component?_eq_none]
  obtain ⟨junk, hbody, hjunk⟩ := trimPieces_append (split (p.drop (lead p)))
  have hpieces : trimPieces (split (p.drop (lead p))) ≠ [] := by
    intro hnil
    rw [hnil, List.nil_append] at hbody
    obtain ⟨s, hs, hcomp⟩ := hc
    rw [steps_eq, hlead.solid, hbody] at hs
    rcases List.mem_append.mp hs with hs | hs
    · rcases List.mem_append.mp hs with hs | hs
      · exact hcomp (hfirst s hs)
      · exact hcomp (hjunk s (List.mem_filter.mp hs).1)
    · exact hcomp (component?_eq_none.mpr (.inl (mem_slashStep hs)))
  obtain ⟨before, name, hname⟩ :
      ∃ before name, trimPieces (split (p.drop (lead p))) = before ++ [name] :=
    ⟨_, _, (List.dropLast_concat_getLast hpieces).symm⟩
  have hcomp : component? name ≠ none := trimPieces_last (by rw [hname]; simp)
  obtain ⟨j, hbefore, hj⟩ := trimPieces_append before
  have hsplit : split (p.drop (lead p))
      = trimPieces before ++ (j ++ ([name] ++ junk)) := by
    rw [hbody, hname]
    conv => lhs; rw [hbefore]
    simp
  have hlast : ∀ s, (trimPieces before).getLast? = some s → component? s ≠ none := fun s =>
    trimPieces_last
  have hsteps := hlead.steps_cut hsplit hlast
  have hparent : parent p = some (p.take (lead p) ++ join (trimPieces before)) := by
    have hdrop : (before ++ [name]).dropLast = before := List.dropLast_concat
    unfold parent
    dsimp only
    rw [hname]
    split
    · rename_i hnil
      exact absurd hnil (by simp)
    · rw [hdrop]
  refine ⟨_, j.filter (· ≠ []), name, junk.filter (· ≠ []) ++ slashStep p, hparent,
    ⟨?_, ?_, hcomp, ?_, hlead.isAbsolute_cut hsplit hlast, ?_, ?_⟩⟩
  · have hne : name ≠ [] := fun hnil => hcomp (component?_eq_none.mpr (.inl hnil))
    rw [steps_eq, hlead.solid, hsplit, hsteps]
    simp [hne]
  · intro s hs
    obtain ⟨hmem, hne⟩ := List.mem_filter.mp hs
    exact (component?_eq_none.mp (hj s hmem)).resolve_left (by simpa using hne)
  · intro s hs
    rcases List.mem_append.mp hs with hs | hs
    · exact hjunk s (List.mem_filter.mp hs).1
    · exact component?_eq_none.mpr (.inl (mem_slashStep hs))
  · intro hnil
    rw [hlead.cut_eq_nil hsplit hlast hj ⟨name, by simp, hcomp⟩ hnil]
    rfl
  · intro s hs
    rw [hlead.isAbsolute_cut hsplit hlast]
    rw [hsteps] at hs ⊢
    by_cases hkept : trimPieces before = []
    · right
      rw [hkept, List.filter_nil, List.append_nil] at hs ⊢
      rcases hlead.first_eq with rfl | ⟨rfl, hrel⟩
      · cases hs
      · exact ⟨rfl, hrel⟩
    · left
      obtain ⟨init, l, hl⟩ : ∃ init l, trimPieces before = init ++ [l] :=
        ⟨_, _, (List.dropLast_concat_getLast hkept).symm⟩
      have hcl : component? l ≠ none := hlast l (by rw [hl]; simp)
      have hne : l ≠ [] := fun hnil => hcl (component?_eq_none.mpr (.inl hnil))
      rw [hl, List.filter_append, ← List.append_assoc] at hs
      simp only [ne_eq, hne, not_false_eq_true, decide_true, List.filter_cons_of_pos,
        List.filter_nil, List.getLast?_append, List.getLast?_singleton, Option.some_or,
        Option.some.injEq] at hs
      exact hs ▸ hcl

/-- A path without any component has no parent to speak of. -/
theorem parent_of_idle {p up : Path} (hidle : ∀ s ∈ steps p, component? s = none)
    (hup : parent p = some up) : up = [] := by
  obtain ⟨first, hlead⟩ := leading p
  have hpieces : trimPieces (split (p.drop (lead p))) = [] := by
    refine Classical.not_not.mp fun hne => ?_
    obtain ⟨junk, hbody, -⟩ := trimPieces_append (split (p.drop (lead p)))
    obtain ⟨init, l, hl⟩ : ∃ init l, trimPieces (split (p.drop (lead p))) = init ++ [l] :=
      ⟨_, _, (List.dropLast_concat_getLast hne).symm⟩
    have hcl : component? l ≠ none := trimPieces_last (by rw [hl]; simp)
    refine hcl (hidle l ?_)
    rw [steps_eq, hlead.solid, hbody, hl]
    have hne : l ≠ [] := fun hnil => hcl (component?_eq_none.mpr (.inl hnil))
    simp [hne]
  unfold parent at hup
  dsimp only at hup
  rw [hpieces] at hup
  dsimp only at hup
  split at hup
  · cases hup
  · exact (Option.some.inj hup).symm

theorem component_or_idle (steps : List Bytes) :
    (∃ s ∈ steps, component? s ≠ none) ∨ ∀ s ∈ steps, component? s = none := by
  by_cases hcomp : ∃ s ∈ steps, component? s ≠ none
  · exact .inl hcomp
  · exact .inr fun s hs => Classical.not_not.mp fun hs' => hcomp ⟨s, hs, hs'⟩

/-- A path is a name below its parent, if that is not just empty. -/
theorem below_of_parent {p up : Path} (hup : parent p = some up) :
    up = [] ∨ ∃ dots name tail, Below p up dots name tail := by
  rcases component_or_idle (steps p) with hcomp | hidle
  · obtain ⟨up', dots, name, tail, hparent, hb⟩ := below_parent hcomp
    obtain rfl := Option.some.inj (hup.symm.trans hparent)
    exact .inr ⟨dots, name, tail, hb⟩
  · exact .inl (parent_of_idle hidle hup)

/-- A parent has fewer steps, if it is not just empty. -/
theorem length_steps_parent {p up : Path} (hup : parent p = some up) :
    up = [] ∨ (steps up).length < (steps p).length := by
  rcases below_of_parent hup with hnil | ⟨dots, name, tail, hb⟩
  · exact .inl hnil
  · right
    rw [hb.along]
    simp only [List.length_append, List.length_cons]
    omega

/-- Steps are no more than bytes, but for a separator at the end. -/
theorem length_solid_le : ∀ p : Path, (solid p).length ≤ p.length
  | [] => Nat.le_refl 0
  | b :: r => by
      have ih := length_solid_le r
      by_cases hb : b = separator
      · rw [solid, hb, split_cons_separator]
        exact Nat.le_succ_of_le ih
      · obtain ⟨piece, pieces, hs, hc⟩ := split_cons hb r
        rw [solid, hs] at ih
        rw [solid, hc]
        simp only [List.filter_cons, List.length_cons, ne_eq, reduceCtorEq, not_false_eq_true,
          decide_true, if_true] at ih ⊢
        split at ih
        · exact Nat.le_succ_of_le ih
        · exact Nat.succ_le_succ ih

theorem length_steps_le (p : Path) : (steps p).length ≤ p.length + 1 := by
  have hsolid := length_solid_le p
  have hslash : (slashStep p).length ≤ 1 := by
    unfold slashStep
    split <;> simp
  rw [steps_eq, List.length_append]
  omega

/-! ## Contained paths -/

/-- A contained path is relative and never goes up. -/
theorem isContained_spec {p : Path} (h : isContained p = true) :
    p ≠ [] ∧ isAbsolute p = false ∧ ∀ s ∈ steps p, s ≠ dotDot := by
  simp only [isContained, Bool.and_eq_true, decide_eq_true_eq] at h
  obtain ⟨hne, hall⟩ := h
  have hrel : isAbsolute p = false := by
    rw [← Bool.not_eq_true]
    intro habs
    have hroot := List.all_eq_true.mp hall .root (by simp [components, habs])
    cases hroot
  refine ⟨hne, hrel, ?_⟩
  rintro s hs rfl
  have hmem : dotDot ∈ split p := by
    rw [steps_eq] at hs
    rcases List.mem_append.mp hs with hs | hs
    · exact (mem_solid.mp hs).1
    · exact absurd (mem_slashStep hs) (by simp [dotDot])
  have hcomp : Component.up ∈ components p := by
    refine List.mem_append_right _ (List.mem_filterMap.mpr ⟨dotDot, hmem, ?_⟩)
    rfl
  have hup := List.all_eq_true.mp hall .up hcomp
  cases hup

end Conformance.Path
