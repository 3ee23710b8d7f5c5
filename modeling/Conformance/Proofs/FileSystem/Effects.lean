import Conformance.Proofs.FileSystem.Edits
import Conformance.Proofs.FileSystem.Places

/-!
# What calls do to a file system

For every call that changes files, what it has found when it succeeds,
and the files after it: one node is put where there was none, or in the
place of another, or is taken away. Emptying a directory is many calls;
all it does is to take away nodes below that directory (`Shrinks`), each
of them when nothing is below it any more (`edits_emptyDirectory`).
-/

namespace Conformance.FileSystem

variable {fs fs' : FileSystem} {p : Path}

/-! ## Attempts -/

/-- Work that has changed nothing and then fails has changed nothing. -/
theorem andThen_error (call : FileSystem → Except OsFault FileSystem) {a : Attempt}
    {fault : OsFault} (ha : a.files = fs) (hcall : call fs = .error fault) :
    ∃ fault', a.andThen (fun fs => Attempt.ofCall fs (call fs)) = ⟨fs, some fault'⟩ := by
  obtain ⟨files, stopped⟩ := a
  obtain rfl : files = fs := ha
  cases stopped with
  | none => exact ⟨fault, by simp only [Attempt.andThen, hcall, Attempt.ofCall]⟩
  | some fault' => exact ⟨fault', rfl⟩

/-! ## Making names -/

/-- A place is free: it is named, nothing is there, and names may be
added. -/
theorem freePlace_ok {asDirectory : Bool} {place : Place}
    (h : fs.freePlace asDirectory p = .ok place) :
    fs.locatePlace p = .ok place ∧ place.isNamed = true ∧ place.name.length ≤ maxName
      ∧ fs.get? place.location = none ∧ fs.mayAlter place.dir = true
      ∧ (place.slash = true → asDirectory = true) := by
  unfold freePlace at h
  cases hplace : fs.locatePlace p with
  | error fault => simp [hplace, bind, Except.bind] at h
  | ok place' =>
      simp only [hplace, bind, Except.bind] at h
      split at h
      · cases h
      · rename_i hnamed
        split at h
        · cases h
        · rename_i hshort
          split at h
          · cases h
          · rename_i hfree
            split at h
            · cases h
            · rename_i hslash
              split at h
              · cases h
              · rename_i halter
                cases h
                refine ⟨rfl, by simpa using hnamed, Nat.not_lt.mp hshort, by simpa using hfree,
                  by simpa using halter, ?_⟩
                intro hs
                simpa [hs] using hslash

theorem mkdir_ok (h : fs.mkdir p = .ok fs') :
    ∃ place mode, fs.locatePlace p = .ok place ∧ place.isNamed = true
      ∧ place.name.length ≤ maxName ∧ fs.get? place.location = none
      ∧ fs.mayAlter place.dir = true ∧ fs' = fs.add place.location (.directory mode) := by
  unfold mkdir at h
  cases hplace : fs.freePlace true p with
  | error fault => simp [hplace, bind, Except.bind] at h
  | ok place =>
      simp only [hplace, bind, Except.bind, pure, Except.pure, Except.ok.injEq] at h
      obtain ⟨hloc, hnamed, hshort, hfree, halter, -⟩ := freePlace_ok hplace
      exact ⟨place, _, hloc, hnamed, hshort, hfree, halter, h.symm⟩

theorem symlink_ok {target : Path} (h : fs.symlink target p = .ok fs') :
    ∃ place, fs.locatePlace p = .ok place ∧ place.isNamed = true ∧ place.slash = false
      ∧ fs.get? place.location = none ∧ fs' = fs.add place.location (.link target) := by
  unfold symlink at h
  cases hadm : admissible target with
  | error fault => simp [hadm, bind, Except.bind] at h
  | ok u =>
      cases hplace : fs.freePlace false p with
      | error fault => simp [hadm, hplace, bind, Except.bind] at h
      | ok place =>
          simp only [hadm, hplace, bind, Except.bind, pure, Except.pure, Except.ok.injEq] at h
          obtain ⟨hloc, hnamed, -, hfree, -, hslash⟩ := freePlace_ok hplace
          exact ⟨place, hloc, hnamed, by simpa using mt hslash, hfree, h.symm⟩

/-- Where something is already, making a directory fails, and not for
want of anything. -/
theorem mkdir_error_of_canonicalize {l : Location} (hcanon : fs.canonicalize p = .ok l) :
    ∃ fault, fs.mkdir p = .error fault ∧ fault.isNotFound = false := by
  unfold mkdir freePlace
  cases hplace : fs.locatePlace p with
  | error fault => exact ⟨fault, rfl, locatePlace_error hplace hcanon⟩
  | ok place =>
      obtain ⟨-, -, ⟨k, hleads⟩, -⟩ := canonicalize_eq_ok.mp hcanon
      obtain ⟨-, ⟨before, m, hsplit, hbefore⟩, -⟩ := locatePlace_ok hplace
      simp only [bind, Except.bind]
      by_cases hnamed : place.isNamed = true
      · -- The walk has looked the name up, so something is there.
        have hthere : (fs.get? place.location).isSome = true := by
          simp only [Place.isNamed, Bool.and_eq_true, decide_eq_true_eq] at hnamed
          obtain ⟨⟨hnil, hdot⟩, hdots⟩ := hnamed
          rcases splitLast_eq hsplit with ⟨-, -, hname⟩ | hsteps
          · exact absurd hname hnil
          · rw [hsteps] at hleads
            obtain ⟨m', dir, hbefore', hrest⟩ := hleads.split (by simp)
            obtain rfl := hbefore.unique hbefore'
            exact hrest.looked_up hnil hdot hdots
        rw [if_neg (by simp [hnamed])]
        by_cases hlong : maxName < place.name.length
        · rw [if_pos hlong]
          exact ⟨_, rfl, rfl⟩
        · rw [if_neg hlong, if_pos hthere]
          exact ⟨_, rfl, rfl⟩
      · rw [if_pos (by simpa using hnamed)]
        exact ⟨_, rfl, rfl⟩

/-! ## Content and permissions -/

theorem write_ok {content : Bytes} (h : fs.write content p = .ok fs') :
    ∃ place, fs.locatePlace p = .ok place ∧ place.isNamed = true ∧ place.slash = false
      ∧ place.name.length ≤ maxName
      ∧ ((fs.get? place.location = none
            ∧ fs' = fs.add place.location (.file newFile content))
          ∨ ∃ mode old, fs.get? place.location = some (.file mode old)
            ∧ fs' = fs.replace place.location (.file (writtenTo mode) content)) := by
  unfold write at h
  cases hplace : fs.locatePlace p with
  | error fault => simp [hplace, bind, Except.bind] at h
  | ok place =>
      simp only [hplace, bind, Except.bind] at h
      split at h
      · cases h
      · rename_i hnamed
        simp only [Bool.or_eq_true, Bool.not_eq_true', not_or, Bool.not_eq_true,
          Bool.not_eq_false] at hnamed
        split at h
        · cases h
        · rename_i hshort
          refine ⟨place, rfl, hnamed.2, hnamed.1, Nat.not_lt.mp hshort, ?_⟩
          split at h
          · rename_i hfree
            split at h
            · cases h
              exact .inl ⟨hfree, rfl⟩
            · cases h
          · cases h
          · cases h
          · rename_i mode old hfile
            split at h
            · cases h
              exact .inr ⟨mode, old, hfile, rfl⟩
            · cases h

theorem extend_ok {content : Bytes} (h : fs.extend content p = .ok fs') :
    ∃ l mode old, fs.find false p = .ok (l, .file mode old)
      ∧ (content = [] ∧ fs' = fs
        ∨ fs' = fs.replace l (.file (writtenTo mode) (old ++ content))) := by
  unfold extend at h
  cases hfind : fs.find false p with
  | error fault => simp [hfind, bind, Except.bind] at h
  | ok found =>
      obtain ⟨l, node⟩ := found
      simp only [hfind, bind, Except.bind] at h
      cases node with
      | link target => cases h
      | directory mode => cases h
      | file mode old =>
          refine ⟨l, mode, old, rfl, ?_⟩
          dsimp only at h
          split at h
          · cases h
          · split at h
            · rename_i hnil
              exact .inl ⟨hnil, (Except.ok.inj h).symm⟩
            · exact .inr (Except.ok.inj h).symm

theorem chmod_ok {mode : Permissions} (h : fs.chmod mode p = .ok fs') :
    ∃ l node, fs.find true p = .ok (l, node)
      ∧ fs' = fs.replace l (node.withPermissions (Permissions.ofMode mode.mode)) := by
  unfold chmod at h
  cases hfind : fs.find true p with
  | error fault => simp [hfind, bind, Except.bind] at h
  | ok found =>
      obtain ⟨l, node⟩ := found
      simp only [hfind, bind, Except.bind, pure, Except.pure, Except.ok.injEq] at h
      exact ⟨l, node, rfl, h.symm⟩

/-! ## Removing names -/

theorem unlink_ok (h : fs.unlink p = .ok fs') :
    ∃ place node, fs.locatePlace p = .ok place ∧ place.isNamed = true ∧ place.slash = false
      ∧ fs.get? place.location = some node ∧ node.isDirectory = false
      ∧ fs' = fs.erase place.location := by
  unfold unlink at h
  cases hplace : fs.locatePlace p with
  | error fault => simp [hplace, bind, Except.bind] at h
  | ok place =>
      simp only [hplace, bind, Except.bind] at h
      split at h
      · cases h
      · rename_i hnamed
        split at h
        · cases h
        · split at h
          · cases h
          · rename_i node hnode
            split at h
            · cases h
            · rename_i hslash
              split at h
              · cases h
              · split at h
                · cases h
                · rename_i hdir
                  exact ⟨place, node, rfl, by simpa using hnamed, by simpa using hslash, hnode,
                    by simpa using hdir, (Except.ok.inj h).symm⟩

theorem rmdirAt_ok {dir : Location} {name : Bytes} (h : fs.rmdirAt dir name = .ok fs') :
    (∃ mode, fs.get? (dir ++ [name]) = some (.directory mode))
      ∧ (∀ below, fs.get? (dir ++ [name] ++ [below]) = none)
      ∧ fs.mayAlter dir = true ∧ fs' = fs.erase (dir ++ [name]) := by
  unfold rmdirAt at h
  split at h
  · cases h
  · rename_i node hnode
    split at h
    · cases h
    · rename_i halter
      split at h
      · cases h
      · rename_i hdir
        split at h
        · cases h
        · rename_i hempty
          obtain ⟨mode, rfl⟩ := isDirectory_iff.mp (by simpa using hdir)
          exact ⟨⟨mode, hnode⟩, isEmptyDir_iff.mp (by simpa using hempty), by simpa using halter,
            (Except.ok.inj h).symm⟩

theorem rmdir_ok (h : fs.rmdir p = .ok fs') :
    ∃ place mode, fs.locatePlace p = .ok place ∧ place.isNamed = true
      ∧ place.name.length ≤ maxName ∧ fs.get? place.location = some (.directory mode)
      ∧ (∀ below, fs.get? (place.location ++ [below]) = none)
      ∧ fs' = fs.erase place.location := by
  unfold rmdir at h
  cases hplace : fs.locatePlace p with
  | error fault => simp [hplace, bind, Except.bind] at h
  | ok place =>
      simp only [hplace, bind, Except.bind] at h
      split at h
      · cases h
      · rename_i hnil
        split at h
        · cases h
        · rename_i hdot
          split at h
          · cases h
          · rename_i hdots
            split at h
            · cases h
            · rename_i hshort
              obtain ⟨⟨mode, hdir⟩, hbare, -, hfs⟩ := rmdirAt_ok h
              exact ⟨place, mode, rfl, by simp [Place.isNamed, hnil, hdot, hdots],
                Nat.not_lt.mp hshort, hdir, hbare, hfs⟩

/-! ## Emptying a directory -/

/-- Nodes below a location were taken away, and nothing else changed. -/
structure Shrinks (dir : Location) (fs fs' : FileSystem) : Prop where
  start : fs'.start = fs.start
  node : ∀ l, fs'.get? l = fs.get? l ∨ (fs'.get? l = none ∧ dir <+: l ∧ l ≠ dir)

theorem Shrinks.refl (dir : Location) (fs : FileSystem) : Shrinks dir fs fs :=
  ⟨rfl, fun _ => .inl rfl⟩

theorem Shrinks.trans {dir : Location} {fs'' : FileSystem} (h : Shrinks dir fs fs')
    (h' : Shrinks dir fs' fs'') : Shrinks dir fs fs'' := by
  refine ⟨h'.start.trans h.start, fun l => ?_⟩
  rcases h'.node l with heq | hgone
  · rw [heq]
    exact h.node l
  · exact .inr hgone

/-- What is below a directory in the directory is below it. -/
theorem Shrinks.above {dir : Location} {name : Bytes} (h : Shrinks (dir ++ [name]) fs fs') :
    Shrinks dir fs fs' := by
  refine ⟨h.start, fun l => (h.node l).imp id ?_⟩
  rintro ⟨hnone, hpre, -⟩
  refine ⟨hnone, (List.prefix_append dir [name]).trans hpre, ?_⟩
  rintro rfl
  have hlen := hpre.length_le
  rw [List.length_append, List.length_singleton] at hlen
  omega

theorem shrinks_erase (fs : FileSystem) (dir : Location) (name : Bytes) :
    Shrinks dir fs (fs.erase (dir ++ [name])) := by
  refine ⟨rfl, fun l => ?_⟩
  rw [get?_erase]
  by_cases h : l = dir ++ [name]
  · exact .inr ⟨if_pos h, h ▸ List.prefix_append .., by rw [h]; simp⟩
  · exact .inl (if_neg h)

theorem shrinks_rmdirAt {dir : Location} {name : Bytes} :
    Shrinks dir fs (Attempt.ofCall fs (fs.rmdirAt dir name)).files := by
  cases h : fs.rmdirAt dir name with
  | error fault => exact .refl dir fs
  | ok fs' =>
      rw [(rmdirAt_ok h).2.2.2]
      exact shrinks_erase fs dir name

theorem edits_rmdirAt {root dir : Location} {links : Path → Prop} {name : Bytes}
    (hin : root <+: dir) : Edits root links fs (Attempt.ofCall fs (fs.rmdirAt dir name)).files := by
  refine edits_ofCall fun fs' hr => ?_
  obtain ⟨-, hbare, -, rfl⟩ := rmdirAt_ok hr
  exact .single (.erase hin hbare)

theorem Shrinks.andThen {dir : Location} {a : Attempt} {work : FileSystem → Attempt}
    (ha : Shrinks dir fs a.files) (hwork : ∀ fs, Shrinks dir fs (work fs).files) :
    Shrinks dir fs (a.andThen work).files := by
  obtain ⟨files, fault⟩ := a
  cases fault with
  | none => exact ha.trans (hwork files)
  | some fault => exact ha

/-- One name taken out of a directory: `removeNames` up to the next name. -/
def takeName (inner : FileSystem → Location → Bytes → Attempt) (dir : Location) (name : Bytes)
    (fs : FileSystem) : Attempt :=
  match fs.get? dir, fs.get? (dir ++ [name]) with
  | some node, some (.directory _) =>
    if node.searchable then inner fs dir name else ⟨fs, some (.system .accessDenied)⟩
  | _, _ =>
    if fs.mayAlter dir then ⟨fs.erase (dir ++ [name]), none⟩
    else ⟨fs, some (.system .accessDenied)⟩

section

variable {inner : FileSystem → Location → Bytes → Attempt} {dir : Location}

theorem removeNames_cons (name : Bytes) (rest : List Bytes) (fs : FileSystem) :
    removeNames inner dir (name :: rest) fs
      = (takeName inner dir name fs).andThen (removeNames inner dir rest) := rfl

theorem takeName_of_directory {node : Node} {mode : Permissions} {name : Bytes}
    (hdir : fs.get? dir = some node) (hname : fs.get? (dir ++ [name]) = some (.directory mode)) :
    takeName inner dir name fs
      = if node.searchable then inner fs dir name else ⟨fs, some (.system .accessDenied)⟩ := by
  rw [takeName, hdir, hname]

theorem takeName_of_not_directory {name : Bytes}
    (hno : ∀ mode, fs.get? (dir ++ [name]) ≠ some (.directory mode)) :
    takeName inner dir name fs
      = if fs.mayAlter dir then ⟨fs.erase (dir ++ [name]), none⟩
        else ⟨fs, some (.system .accessDenied)⟩ := by
  unfold takeName
  split
  · rename_i mode _ hmode
    exact absurd hmode (hno mode)
  · rfl

/-- What is erased is a name that is no directory, or else nothing is
erased at all. -/
theorem takeName_cases (inner : FileSystem → Location → Bytes → Attempt) (dir : Location)
    (name : Bytes) (fs : FileSystem) :
    (∃ mode, fs.get? (dir ++ [name]) = some (.directory mode)
        ∧ takeName inner dir name fs = inner fs dir name)
      ∨ (takeName inner dir name fs = ⟨fs.erase (dir ++ [name]), none⟩
        ∧ (∀ mode, fs.get? (dir ++ [name]) ≠ some (.directory mode)) ∧ fs.mayAlter dir = true)
      ∨ takeName inner dir name fs = ⟨fs, some (.system .accessDenied)⟩ := by
  by_cases hname : ∃ mode, fs.get? (dir ++ [name]) = some (.directory mode)
  · obtain ⟨mode, hmode⟩ := hname
    cases hdir : fs.get? dir with
    | none =>
        have halter : fs.mayAlter dir = false := by rw [mayAlter, hdir]
        right; right
        rw [takeName, hdir, hmode]
        simp [halter]
    | some node =>
        rw [takeName_of_directory hdir hmode]
        by_cases hsearch : node.searchable = true
        · exact .inl ⟨mode, hmode, if_pos hsearch⟩
        · exact .inr (.inr (if_neg hsearch))
  · have hno : ∀ mode, fs.get? (dir ++ [name]) ≠ some (.directory mode) := fun mode hmode =>
      hname ⟨mode, hmode⟩
    rw [takeName_of_not_directory hno]
    by_cases halter : fs.mayAlter dir = true
    · exact .inr (.inl ⟨if_pos halter, hno, halter⟩)
    · exact .inr (.inr (if_neg halter))

/-- Taking names out of a directory takes away nodes below it, if doing
so with the directories among them does. -/
theorem shrinks_removeNames (hinner : ∀ fs name, Shrinks dir fs (inner fs dir name).files) :
    ∀ (names : List Bytes) (fs : FileSystem), Shrinks dir fs (removeNames inner dir names fs).files
  | [], fs => .refl dir fs
  | name :: rest, fs => by
      rw [removeNames_cons]
      refine Shrinks.andThen ?_ (shrinks_removeNames hinner rest)
      rcases takeName_cases inner dir name fs with ⟨mode, -, htake⟩ | ⟨htake, -⟩ | htake
      · rw [htake]
        exact hinner fs name
      · rw [htake]
        exact shrinks_erase fs dir name
      · rw [htake]
        exact .refl dir fs

/-- Every name is taken out when nothing is below it. -/
theorem edits_removeNames {root : Location} {links : Path → Prop} (hin : root <+: dir)
    (hinner : ∀ fs name, fs.IsTree → Edits root links fs (inner fs dir name).files) :
    ∀ (names : List Bytes) (fs : FileSystem), fs.IsTree →
      Edits root links fs (removeNames inner dir names fs).files
  | [], _, _ => .refl
  | name :: rest, fs, htree => by
      have htake : Edits root links fs (takeName inner dir name fs).files := by
        rcases takeName_cases inner dir name fs with ⟨mode, -, htake⟩ | ⟨htake, hno, -⟩ | htake
        · rw [htake]
          exact hinner fs name htree
        · rw [htake]
          exact .single (.erase hin (bare_of_not_directory htree hno))
        · rw [htake]
      rw [removeNames_cons]
      exact edits_andThen htake fun _ =>
        edits_removeNames hin hinner rest _ (htake.isTree htree)

end

/-- **Emptying.** Emptying a directory takes away nothing but nodes below
it, however deep it goes and wherever it stops. -/
theorem shrinks_emptyDirectory : ∀ (depth : Nat) (fs : FileSystem) (loc : Location),
    Shrinks loc fs (emptyDirectory depth fs loc).files := by
  intro depth
  induction depth with
  | zero =>
      intro fs loc
      unfold emptyDirectory
      split
      · exact .refl loc fs
      · split <;> exact .refl loc fs
  | succ depth ih =>
      intro fs loc
      unfold emptyDirectory
      split
      · exact .refl loc fs
      · split
        · exact .refl loc fs
        · refine shrinks_removeNames (fun fs name => ?_) _ fs
          exact (ih fs (loc ++ [name])).above.andThen fun _ => shrinks_rmdirAt

theorem edits_emptyDirectory {root : Location} {links : Path → Prop} :
    ∀ (depth : Nat) (fs : FileSystem) (loc : Location), fs.IsTree → root <+: loc →
      Edits root links fs (emptyDirectory depth fs loc).files := by
  intro depth
  induction depth with
  | zero =>
      intro fs loc _ _
      unfold emptyDirectory
      split
      · exact .refl
      · split <;> exact .refl
  | succ depth ih =>
      intro fs loc htree hin
      unfold emptyDirectory
      split
      · exact .refl
      · split
        · exact .refl
        · refine edits_removeNames hin (fun fs name htree => ?_) _ fs htree
          exact edits_andThen (ih fs (loc ++ [name]) htree (hin.trans (List.prefix_append ..)))
            fun _ => edits_rmdirAt hin

theorem Shrinks.sameOutside {dir : Location} (h : Shrinks dir fs fs') :
    SameOutside dir fs fs' := by
  intro l hl
  rcases h.node l with heq | ⟨-, hpre, -⟩
  · exact heq
  · exact absurd hpre hl

/-- What is still there was there. -/
theorem Shrinks.grows {dir : Location} (h : Shrinks dir fs fs') : Grows fs' fs := by
  refine ⟨h.start.symm, fun {l n} hn => ⟨n, ?_, .inl rfl⟩⟩
  rcases h.node l with heq | ⟨hnone, -⟩
  · rw [← heq, hn]
  · rw [hnone] at hn
    cases hn

end Conformance.FileSystem
