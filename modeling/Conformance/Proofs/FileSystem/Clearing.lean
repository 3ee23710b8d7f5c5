import Conformance.Proofs.FileSystem.Effects

/-!
# When a directory can be emptied

A directory can be emptied exactly when every directory at and below it
can be read, and names can be taken out of those that have some
(`emptyDirectory_fault_iff`). Nothing else stands in the way: links are
not followed, and files need no permission of their own.

One direction goes along the names of a directory: each is taken out in
files in which less is there than before, and these can be cleared as
well (`Clearable.shrinks`). The other looks at the first time a name
comes up: until then nothing at or below it was touched
(`removeNames_frame`).
-/

namespace Conformance.FileSystem

variable {fs fs' : FileSystem} {inner : FileSystem → Location → Bytes → Attempt} {dir : Location}

/-- Every directory at or below a location can be read, and names can be
taken out of those that have some. -/
def Clearable (fs : FileSystem) (root : Location) : Prop :=
  ∀ l node, root <+: l → fs.get? l = some node → node.isDirectory = true →
    node.readable = true
      ∧ ((∃ name, (fs.get? (l ++ [name])).isSome = true) → fs.mayAlter l = true)

/-- Nothing is deeper below a location than that. -/
def Shallow (depth : Nat) (fs : FileSystem) (loc : Location) : Prop :=
  ∀ l, loc <+: l → (fs.get? l).isSome = true → l.length ≤ loc.length + depth

/-! ## Depth -/

theorem foldl_max_le {α : Type} (f : α → Nat) : ∀ (l : List α) (n : Nat),
    n ≤ l.foldl (fun n a => max n (f a)) n ∧ ∀ a ∈ l, f a ≤ l.foldl (fun n a => max n (f a)) n
  | [], n => ⟨Nat.le_refl n, by simp⟩
  | a :: l, n => by
      obtain ⟨hle, hall⟩ := foldl_max_le f l (max n (f a))
      rw [List.foldl_cons]
      refine ⟨by omega, fun b hb => ?_⟩
      rcases List.mem_cons.mp hb with rfl | hb
      · omega
      · exact hall b hb

theorem shallow_depth (fs : FileSystem) (loc : Location) : Shallow fs.depth fs loc := by
  intro l _ hl
  obtain ⟨e, he, heq⟩ := List.lookup_isSome_iff.mp hl
  have hdepth := (foldl_max_le (fun e : Location × Node => e.1.length) fs.nodes 0).2 e he
  rw [← eq_of_beq heq] at hdepth
  exact Nat.le_trans hdepth (Nat.le_add_left ..)

theorem Shallow.below {depth : Nat} (h : Shallow (depth + 1) fs dir) (name : Bytes) :
    Shallow depth fs (dir ++ [name]) := by
  intro l hl hsome
  have hle := h l ((List.prefix_append ..).trans hl) hsome
  rw [List.length_append, List.length_singleton]
  omega

/-! ## When less is there -/

theorem Shrinks.isSome (h : Shrinks dir fs fs') {l : Location} (hl : (fs'.get? l).isSome = true) :
    fs'.get? l = fs.get? l := by
  rcases h.node l with heq | ⟨hnone, -⟩
  · exact heq
  · rw [hnone] at hl
    cases hl

/-- The directory itself stays as it is. -/
theorem Shrinks.self (h : Shrinks dir fs fs') : fs'.get? dir = fs.get? dir := by
  rcases h.node dir with heq | ⟨-, -, hne⟩
  · exact heq
  · exact absurd rfl hne

theorem Shallow.shrinks {depth : Nat} {loc : Location} (hs : Shallow depth fs loc)
    (h : Shrinks dir fs fs') : Shallow depth fs' loc := by
  intro l hl hsome
  exact hs l hl (h.isSome hsome ▸ hsome)

theorem mayAlter_congr {l : Location} (h : fs'.get? l = fs.get? l) :
    fs'.mayAlter l = fs.mayAlter l := by
  rw [mayAlter, mayAlter, h]

theorem Clearable.shrinks {loc : Location} (hc : Clearable fs loc) (h : Shrinks dir fs fs') :
    Clearable fs' loc := by
  intro l node hl hnode hdir
  have hsame : fs'.get? l = fs.get? l := h.isSome (by rw [hnode]; rfl)
  obtain ⟨hread, halter⟩ := hc l node hl (hsame ▸ hnode) hdir
  refine ⟨hread, fun ⟨name, hname⟩ => ?_⟩
  rw [mayAlter_congr hsame]
  exact halter ⟨name, h.isSome hname ▸ hname⟩

/-! ## Names are taken out -/

theorem removeNames_append (names more : List Bytes) (fs : FileSystem) :
    removeNames inner dir (names ++ more) fs
      = (removeNames inner dir names fs).andThen (removeNames inner dir more) := by
  induction names generalizing fs with
  | nil => rfl
  | cons name rest ih =>
      rw [List.cons_append, removeNames_cons, removeNames_cons]
      rcases takeName inner dir name fs with ⟨files, _ | fault⟩
      · exact ih files
      · rfl

/-- Nothing stopped a part of what nothing stopped. -/
theorem andThen_fault {a : Attempt} {work : FileSystem → Attempt}
    (h : (a.andThen work).fault = none) : a.fault = none ∧ (work a.files).fault = none := by
  obtain ⟨files, fault⟩ := a
  cases fault with
  | none => exact ⟨rfl, h⟩
  | some fault => cases h

/-- Names that differ have nothing in common below them. -/
theorem not_below_of_ne {name name' : Bytes} (hne : name ≠ name') {l : Location}
    (hl : dir ++ [name] <+: l) : ¬ dir ++ [name'] <+: l := by
  intro hl'
  have heq := List.IsPrefix.eq_of_length (List.prefix_of_prefix_length_le hl hl' (by simp))
    (by simp)
  exact hne (by simpa using heq)

/-- Taking other names out leaves what is at and below a name alone. -/
theorem removeNames_frame
    (hinner : ∀ fs name, SameOutside (dir ++ [name]) fs (inner fs dir name).files)
    {name : Bytes} {l : Location} (hl : dir ++ [name] <+: l) :
    ∀ (names : List Bytes) (fs : FileSystem), name ∉ names →
      (removeNames inner dir names fs).files.get? l = fs.get? l := by
  intro names
  induction names with
  | nil => exact fun _ _ => rfl
  | cons other rest ih =>
      intro fs hmem
      rw [List.mem_cons, not_or] at hmem
      have hout := not_below_of_ne hmem.1 hl
      have htake : (takeName inner dir other fs).files.get? l = fs.get? l := by
        rcases takeName_cases inner dir other fs with ⟨-, -, htake⟩ | ⟨htake, -⟩ | htake
        · rw [htake]
          exact hinner fs other l hout
        · rw [htake]
          exact sameOutside_erase List.prefix_rfl fs l hout
        · rw [htake]
      rw [removeNames_cons, ← htake]
      generalize takeName inner dir other fs = a
      obtain ⟨files, fault⟩ := a
      cases fault with
      | none => exact ih files hmem.2
      | some fault => rfl

/-! ## The directories among the names -/

/-- How a directory in another one is removed. -/
def removeBelow (depth : Nat) (fs : FileSystem) (dir : Location) (name : Bytes) : Attempt :=
  (emptyDirectory depth fs (dir ++ [name])).andThen fun fs' =>
    Attempt.ofCall fs' (fs'.rmdirAt dir name)

theorem emptyDirectory_succ {depth : Nat} {node : Node} (hnode : fs.get? dir = some node)
    (hread : node.readable = true) :
    emptyDirectory (depth + 1) fs dir
      = removeNames (removeBelow depth) dir (fs.children dir) fs := by
  rw [emptyDirectory]
  simp only [hnode, hread, Bool.not_true, Bool.false_eq_true, if_false]
  rfl

/-- What can be emptied is there and can be read. -/
theorem readable_of_emptyDirectory {depth : Nat} (h : (emptyDirectory depth fs dir).fault = none) :
    ∃ node, fs.get? dir = some node ∧ node.readable = true := by
  unfold emptyDirectory at h
  cases hnode : fs.get? dir with
  | none => simp [hnode] at h
  | some node =>
      refine ⟨node, rfl, ?_⟩
      cases hread : node.readable with
      | true => rfl
      | false => simp [hnode, hread] at h

theorem rmdirAt_eq_ok {name : Bytes} {mode : Permissions}
    (hname : fs.get? (dir ++ [name]) = some (.directory mode)) (halter : fs.mayAlter dir = true)
    (hbare : ∀ below, fs.get? (dir ++ [name] ++ [below]) = none) :
    fs.rmdirAt dir name = .ok (fs.erase (dir ++ [name])) := by
  simp [rmdirAt, hname, halter, Node.isDirectory, isEmptyDir_iff.mpr hbare]

theorem shrinks_removeBelow (depth : Nat) (fs : FileSystem) (name : Bytes) :
    Shrinks dir fs (removeBelow depth fs dir name).files :=
  (shrinks_emptyDirectory depth fs (dir ++ [name])).above.andThen fun _ => shrinks_rmdirAt

theorem edits_removeBelow (depth : Nat) (fs : FileSystem) (name : Bytes) (htree : fs.IsTree) :
    Edits dir (fun _ => True) fs (removeBelow depth fs dir name).files :=
  edits_andThen (edits_emptyDirectory depth fs (dir ++ [name]) htree (List.prefix_append ..))
    fun _ => edits_rmdirAt List.prefix_rfl

theorem removeBelow_sameOutside (depth : Nat) (fs : FileSystem) (name : Bytes) :
    SameOutside (dir ++ [name]) fs (removeBelow depth fs dir name).files := by
  have hout := (shrinks_emptyDirectory depth fs (dir ++ [name])).sameOutside
  unfold removeBelow
  generalize emptyDirectory depth fs (dir ++ [name]) = a at hout ⊢
  obtain ⟨files, fault⟩ := a
  cases fault with
  | some fault => exact hout
  | none =>
      cases hr : files.rmdirAt dir name with
      | error fault => simpa [Attempt.andThen, hr, Attempt.ofCall] using hout
      | ok fs' =>
          obtain ⟨-, -, -, rfl⟩ := rmdirAt_ok hr
          simpa [Attempt.andThen, hr, Attempt.ofCall] using
            hout.trans (sameOutside_erase List.prefix_rfl files)

/-! ## What can be cleared is emptied -/

/-- Files out of whose directory names are being taken. -/
structure Emptying (depth : Nat) (dir : Location) (fs : FileSystem) : Prop where
  tree : fs.IsTree
  shallow : Shallow depth fs dir
  clearable : Clearable fs dir
  alter : fs.mayAlter dir = true

theorem Emptying.erase {depth : Nat} (h : Emptying depth dir fs) {name : Bytes}
    (hbare : ∀ below, fs.get? (dir ++ [name] ++ [below]) = none) :
    Emptying depth dir (fs.erase (dir ++ [name])) := by
  have hshrinks := shrinks_erase fs dir name
  have hedit : Edit dir (fun _ => True) fs (fs.erase (dir ++ [name])) :=
    .erase List.prefix_rfl hbare
  exact ⟨hedit.isTree h.tree, h.shallow.shrinks hshrinks, h.clearable.shrinks hshrinks, by
    rw [mayAlter_congr hshrinks.self]
    exact h.alter⟩

/-- A name comes out, if emptying the directories below works. -/
theorem Emptying.takeName {depth : Nat} (h : Emptying (depth + 1) dir fs)
    (ih : ∀ fs loc mode, fs.IsTree → Shallow depth fs loc → fs.get? loc = some (.directory mode) →
      Clearable fs loc → ∃ fs', emptyDirectory depth fs loc = ⟨fs', none⟩
        ∧ ∀ name, fs'.get? (loc ++ [name]) = none) (name : Bytes) :
    ∃ fs', takeName (removeBelow depth) dir name fs = ⟨fs', none⟩ ∧ Emptying (depth + 1) dir fs'
      ∧ Shrinks dir fs fs' ∧ fs'.get? (dir ++ [name]) = none := by
  have hgone : ∀ fs : FileSystem, (fs.erase (dir ++ [name])).get? (dir ++ [name]) = none := by
    intro fs
    rw [get?_erase, if_pos rfl]
  by_cases hname : ∃ mode, fs.get? (dir ++ [name]) = some (.directory mode)
  · obtain ⟨mode, hmode⟩ := hname
    obtain ⟨node, hnode, hsearch⟩ : ∃ node, fs.get? dir = some node ∧ node.searchable = true := by
      have halter := h.alter
      unfold mayAlter at halter
      split at halter
      · rename_i node hnode
        exact ⟨node, hnode, by simpa using And.right (by simpa using halter)⟩
      · cases halter
    have hbelow : Clearable fs (dir ++ [name]) := fun l node hl =>
      h.clearable l node ((List.prefix_append ..).trans hl)
    obtain ⟨files, hempty, hbare⟩ := ih fs (dir ++ [name]) mode h.tree (h.shallow.below name)
      hmode hbelow
    have hshrinks := shrinks_emptyDirectory depth fs (dir ++ [name])
    have hedits : Edits dir (fun _ => True) fs (emptyDirectory depth fs (dir ++ [name])).files :=
      edits_emptyDirectory depth fs (dir ++ [name]) h.tree (List.prefix_append ..)
    rw [hempty] at hshrinks hedits
    have hemptied : Emptying (depth + 1) dir files := by
      refine ⟨hedits.isTree h.tree, h.shallow.shrinks hshrinks, h.clearable.shrinks hshrinks, ?_⟩
      rw [mayAlter_congr hshrinks.above.self]
      exact h.alter
    have hthere : files.get? (dir ++ [name]) = some (.directory mode) := hshrinks.self.trans hmode
    refine ⟨files.erase (dir ++ [name]), ?_, hemptied.erase hbare,
      hshrinks.above.trans (shrinks_erase files dir name), hgone files⟩
    rw [takeName_of_directory hnode hmode, if_pos hsearch, removeBelow, hempty]
    simp only [Attempt.andThen, rmdirAt_eq_ok hthere hemptied.alter hbare, Attempt.ofCall]
  · have hno : ∀ mode, fs.get? (dir ++ [name]) ≠ some (.directory mode) := fun mode hmode =>
      hname ⟨mode, hmode⟩
    refine ⟨fs.erase (dir ++ [name]), ?_, h.erase (bare_of_not_directory h.tree hno),
      shrinks_erase fs dir name, hgone fs⟩
    rw [takeName_of_not_directory hno, if_pos h.alter]

theorem Emptying.removeNames {depth : Nat}
    (ih : ∀ fs loc mode, fs.IsTree → Shallow depth fs loc → fs.get? loc = some (.directory mode) →
      Clearable fs loc → ∃ fs', emptyDirectory depth fs loc = ⟨fs', none⟩
        ∧ ∀ name, fs'.get? (loc ++ [name]) = none) :
    ∀ (names : List Bytes) {fs : FileSystem}, Emptying (depth + 1) dir fs →
      ∃ fs', removeNames (removeBelow depth) dir names fs = ⟨fs', none⟩ ∧ Shrinks dir fs fs'
        ∧ ∀ name ∈ names, fs'.get? (dir ++ [name]) = none
  | [], fs, _ => ⟨fs, rfl, .refl dir fs, by simp⟩
  | name :: rest, fs, h => by
      obtain ⟨fs₁, htake, hemptying, hshrinks, hgone⟩ := h.takeName ih name
      obtain ⟨fs₂, hrest, hshrinks', hall⟩ := Emptying.removeNames ih rest hemptying
      refine ⟨fs₂, ?_, hshrinks.trans hshrinks', fun name' hmem => ?_⟩
      · rw [removeNames_cons, htake]
        exact hrest
      · rcases List.mem_cons.mp hmem with rfl | hmem
        · rcases hshrinks'.node (dir ++ [name']) with heq | ⟨hnone, -⟩
          · rw [heq, hgone]
          · exact hnone
        · exact hall name' hmem

/-- **Clearing.** A directory that can be cleared is emptied. -/
theorem emptyDirectory_of_clearable : ∀ (depth : Nat) (fs : FileSystem) (loc : Location)
    (mode : Permissions), fs.IsTree → Shallow depth fs loc →
    fs.get? loc = some (.directory mode) → Clearable fs loc →
    ∃ fs', emptyDirectory depth fs loc = ⟨fs', none⟩ ∧ ∀ name, fs'.get? (loc ++ [name]) = none := by
  intro depth
  induction depth with
  | zero =>
      intro fs loc mode htree hshallow hdir hclear
      obtain ⟨hread, -⟩ := hclear loc _ List.prefix_rfl hdir rfl
      refine ⟨fs, by simp [emptyDirectory, hdir, hread], fun name => ?_⟩
      cases hname : fs.get? (loc ++ [name]) with
      | none => rfl
      | some node =>
          have hlen := hshallow (loc ++ [name]) (List.prefix_append ..) (by rw [hname]; rfl)
          rw [List.length_append, List.length_singleton] at hlen
          omega
  | succ depth ih =>
      intro fs loc mode htree hshallow hdir hclear
      obtain ⟨hread, halter⟩ := hclear loc _ List.prefix_rfl hdir rfl
      rw [emptyDirectory_succ hdir hread]
      cases hnames : fs.children loc with
      | nil =>
          refine ⟨fs, rfl, fun name => ?_⟩
          have hno : ¬ (fs.get? (loc ++ [name])).isSome = true := by
            rw [← mem_children, hnames]
            exact List.not_mem_nil
          simpa using hno
      | cons name rest =>
          have hsome := mem_children.mp (hnames ▸ List.mem_cons_self : name ∈ fs.children loc)
          have hemptying : Emptying (depth + 1) loc fs :=
            ⟨htree, hshallow, hclear, halter ⟨name, hsome⟩⟩
          rw [← hnames]
          obtain ⟨fs', hremove, hshrinks, hall⟩ := hemptying.removeNames ih (fs.children loc)
          refine ⟨fs', hremove, fun name' => ?_⟩
          rcases hshrinks.node (loc ++ [name']) with heq | ⟨hnone, -⟩
          · cases hname' : fs.get? (loc ++ [name']) with
            | none => rw [heq, hname']
            | some node => exact hall name' (mem_children.mpr (by rw [hname']; rfl))
          · exact hnone

/-! ## What is emptied could be cleared -/

/-- Whatever is on the way to something in a tree is a directory. -/
theorem directory_above (htree : fs.IsTree) {l : Location} {name : Bytes} :
    ∀ {rest : List Bytes}, (fs.get? (l ++ name :: rest)).isSome = true →
      ∃ mode, fs.get? l = some (.directory mode) := by
  intro rest
  induction rest generalizing l name with
  | nil =>
      intro hsome
      obtain ⟨node, hnode⟩ := Option.isSome_iff_exists.mp hsome
      exact htree hnode
  | cons next rest ih =>
      intro hsome
      rw [← List.singleton_append, ← List.append_assoc] at hsome
      obtain ⟨mode, hmode⟩ := ih hsome
      exact htree hmode

/-- The first time a name is taken out of a directory, everything at and
below it is as it was in the beginning, and the directory too. -/
theorem takeName_of_removeNames (htree : fs.IsTree) {depth : Nat} {names : List Bytes}
    {name : Bytes} (hmem : name ∈ names)
    (h : (removeNames (removeBelow depth) dir names fs).fault = none) :
    ∃ fs', fs'.IsTree ∧ Shrinks dir fs fs' ∧ (∀ l, dir ++ [name] <+: l → fs'.get? l = fs.get? l)
      ∧ (takeName (removeBelow depth) dir name fs').fault = none := by
  obtain ⟨before, after, rfl, hnew⟩ := List.eq_append_cons_of_mem hmem
  rw [removeNames_append] at h
  obtain ⟨-, hrest⟩ := andThen_fault h
  rw [removeNames_cons] at hrest
  have hedits : Edits dir (fun _ => True) fs
      (removeNames (removeBelow depth) dir before fs).files :=
    edits_removeNames List.prefix_rfl (edits_removeBelow depth) before fs htree
  refine ⟨_, hedits.isTree htree, shrinks_removeNames (shrinks_removeBelow depth) before fs,
    fun l hl => ?_, (andThen_fault hrest).1⟩
  exact removeNames_frame (removeBelow_sameOutside depth) hl before fs hnew

theorem mayAlter_of_takeName {depth : Nat} {name : Bytes}
    (h : (takeName (removeBelow depth) dir name fs).fault = none) : fs.mayAlter dir = true := by
  rcases takeName_cases (removeBelow depth) dir name fs with ⟨-, -, htake⟩ | ⟨-, -, halter⟩ | htake
  · have hshrinks := (shrinks_emptyDirectory depth fs (dir ++ [name])).above
    rw [htake] at h
    obtain ⟨-, hrmdir⟩ := andThen_fault h
    rw [← mayAlter_congr hshrinks.self]
    cases hr : (emptyDirectory depth fs (dir ++ [name])).files.rmdirAt dir name with
    | error fault => simp [hr, Attempt.ofCall] at hrmdir
    | ok fs' => exact (rmdirAt_ok hr).2.2.1
  · exact halter
  · rw [htake] at h
    cases h

theorem clearable_of_emptyDirectory : ∀ (depth : Nat) (fs : FileSystem) (loc : Location),
    fs.IsTree → Shallow depth fs loc → (emptyDirectory depth fs loc).fault = none →
    Clearable fs loc := by
  intro depth
  induction depth with
  | zero =>
      intro fs loc _ hshallow h l node hl hnode _
      obtain ⟨node', hnode', hread⟩ := readable_of_emptyDirectory h
      have hlen := hshallow l hl (by rw [hnode]; rfl)
      obtain rfl := List.IsPrefix.eq_of_length hl (Nat.le_antisymm hl.length_le hlen)
      obtain rfl := Option.some.inj (hnode.symm.trans hnode')
      refine ⟨hread, fun ⟨name, hname⟩ => ?_⟩
      have hlen' := hshallow (loc ++ [name]) (List.prefix_append ..) hname
      rw [List.length_append, List.length_singleton] at hlen'
      omega
  | succ depth ih =>
      intro fs loc htree hshallow h l node hl hnode hdir
      obtain ⟨top, htop, hread⟩ := readable_of_emptyDirectory h
      rw [emptyDirectory_succ htop hread] at h
      obtain ⟨rest, rfl⟩ := hl
      cases rest with
      | nil =>
          rw [List.append_nil] at hnode ⊢
          obtain rfl := Option.some.inj (hnode.symm.trans htop)
          refine ⟨hread, fun ⟨name, hname⟩ => ?_⟩
          obtain ⟨fs', -, hshrinks, -, htake⟩ :=
            takeName_of_removeNames htree (mem_children.mpr hname) h
          rw [← mayAlter_congr hshrinks.self]
          exact mayAlter_of_takeName htake
      | cons name rest =>
          have hpre : loc ++ [name] <+: loc ++ name :: rest := ⟨rest, by simp⟩
          -- The name is a directory: the location is, or is below it.
          obtain ⟨mode, hmode⟩ : ∃ mode, fs.get? (loc ++ [name]) = some (.directory mode) := by
            cases rest with
            | nil =>
                obtain ⟨mode, rfl⟩ := isDirectory_iff.mp hdir
                exact ⟨mode, hnode⟩
            | cons next rest =>
                rw [← List.singleton_append, ← List.append_assoc] at hnode
                exact directory_above htree (by rw [hnode]; rfl)
          obtain ⟨fs', htree', hshrinks, hsame, htake⟩ :=
            takeName_of_removeNames htree (mem_children.mpr (by rw [hmode]; rfl)) h
          have hmode' := (hsame _ List.prefix_rfl).trans hmode
          have hbelow : (emptyDirectory depth fs' (loc ++ [name])).fault = none := by
            rcases takeName_cases (removeBelow depth) loc name fs'
              with ⟨-, -, heq⟩ | ⟨-, hno, -⟩ | heq
            · rw [heq] at htake
              exact (andThen_fault htake).1
            · exact absurd hmode' (hno mode)
            · rw [heq] at htake
              cases htake
          have hclear :=
            ih fs' (loc ++ [name]) htree' ((hshallow.shrinks hshrinks).below name) hbelow
          obtain ⟨hread', halter⟩ := hclear _ node hpre ((hsame _ hpre).trans hnode) hdir
          refine ⟨hread', fun ⟨n, hn⟩ => ?_⟩
          rw [← mayAlter_congr (hsame _ hpre)]
          exact halter ⟨n, by rw [hsame _ (hpre.trans (List.prefix_append ..))]; exact hn⟩

/-- **Emptying.** A directory of a tree can be emptied exactly when it can
be cleared. -/
theorem emptyDirectory_fault_iff (htree : fs.IsTree) {loc : Location} {mode : Permissions}
    (hdir : fs.get? loc = some (.directory mode)) :
    (emptyDirectory fs.depth fs loc).fault = none ↔ Clearable fs loc := by
  constructor
  · exact clearable_of_emptyDirectory fs.depth fs loc htree (shallow_depth fs loc)
  · intro hclear
    obtain ⟨fs', hempty, -⟩ :=
      emptyDirectory_of_clearable fs.depth fs loc mode htree (shallow_depth fs loc) hdir hclear
    rw [hempty]

end Conformance.FileSystem
