import Conformance.Proofs.FileSystem.Clearing
import Conformance.Proofs.Workspace.Inside

/-!
# A workspace from its making to its removal

A workspace starts out as an empty directory at a place that was free, so
nothing of the files around it is in it (`Founded`). Every link that a
fixture makes in it has a target without `..` that is not absolute, and
names without `..` lead nowhere out of a directory whose links are all
like that (`Rooted.inside`). So a fixture only ever edits the workspace,
and a workspace that fixtures tend stays one: its directory is there, its
path leads to it, and everything around it is as it was (`Tended`).

That makes its removal a matter of permissions alone. The directory is
gone afterwards exactly when it could be cleared (`Tended.remove_iff`).
-/

namespace Conformance

open FileSystem

/-- **Walks.** Names without `..` lead nowhere out of a root in which the
links have such targets. -/
theorem FileSystem.Rooted.inside {fs : FileSystem} {root : Location}
    (hroot : fs.Rooted root fun target => Path.isContained target = true) {follow : Bool}
    {n m : Nat} {loc l : Location} {names : List Bytes} (h : Leads fs follow n loc names m l)
    (hin : root <+: loc) (hdots : ∀ s ∈ names, s ≠ Path.dotDot) : root <+: l := by
  induction h with
  | done => exact hin
  | stay _ _ ih => exact ih hin fun s hs => hdots s (List.mem_cons_of_mem _ hs)
  | here _ _ _ ih => exact ih hin fun s hs => hdots s (List.mem_cons_of_mem _ hs)
  | up _ _ _ => exact absurd rfl (hdots _ List.mem_cons_self)
  | down _ _ _ _ ih =>
      exact ih (hin.trans (List.prefix_append ..)) fun s hs =>
        hdots s (List.mem_cons_of_mem _ hs)
  | @through follow n loc name rest m l target _ hnode _ _ ih =>
      obtain ⟨-, hrel, htarget⟩ :=
        Path.isContained_spec (hroot.links _ target (hin.trans (List.prefix_append ..)) hnode)
      simp only [hrel] at ih
      refine ih hin fun s hs => ?_
      rcases List.mem_append.mp hs with hs | hs
      · exact htarget s hs
      · exact hdots s (List.mem_cons_of_mem _ hs)
  | atLink _ _ => exact hin.trans (List.prefix_append ..)

namespace Workspace

/-- A workspace was made at a place that was free in the files. -/
structure Founded (ws : Workspace) (files : FileSystem) (place : Place) : Prop where
  tree : files.IsTree
  named_by : files.locatePlace ws.root = .ok place
  named : place.isNamed = true
  short : place.name.length ≤ maxName
  free : files.get? place.location = none
  alter : files.mayAlter place.dir = true
  location : ws.location = place.location

/-- Files in which a workspace stands: it is a directory whose links have
targets that stay below, and around it nothing has changed. -/
structure Tended (ws : Workspace) (files fs : FileSystem) : Prop
    extends fs.Rooted ws.location fun target => Path.isContained target = true where
  start : fs.start = files.start
  outside : SameOutside ws.location files fs

variable {ws : Workspace} {files fs fs' : FileSystem} {place : Place}

/-! ## The making -/

/-- Nothing is at or below the place of a new workspace. -/
theorem Founded.outside (hf : ws.Founded files place) {l : Location}
    (hl : (files.get? l).isSome = true) : ¬ ws.location <+: l := by
  rw [hf.location]
  rintro ⟨rest, rfl⟩
  cases rest with
  | nil =>
      rw [List.append_nil, hf.free] at hl
      cases hl
  | cons name rest =>
      obtain ⟨mode, hmode⟩ := directory_above hf.tree hl
      rw [hf.free] at hmode
      cases hmode

theorem Founded.location_ne_dir (hf : ws.Founded files place) : ¬ ws.location <+: place.dir := by
  intro hpre
  have hlen := hpre.length_le
  rw [hf.location, Place.location, List.length_append, List.length_singleton] at hlen
  omega

theorem Founded.made (hf : ws.Founded files place) (mode : Permissions) :
    ws.Tended files (files.add ws.location (.directory mode)) := by
  have hnode : (files.add ws.location (.directory mode)).get? ws.location
      = some (.directory mode) := by
    rw [get?_add, if_pos rfl]
  obtain ⟨-, -, dirMode, hdir, -⟩ := locatePlace_ok hf.named_by
  have hedit : Edit place.dir (fun _ => True) files (files.add ws.location (.directory mode)) := by
    rw [hf.location]
    exact .add List.prefix_rfl hdir hf.free (by simp)
  refine ⟨⟨hedit.isTree hf.tree, ⟨mode, hnode⟩, fun l target hin hlink => ?_⟩, rfl,
    sameOutside_add List.prefix_rfl files _⟩
  rw [get?_add] at hlink
  split at hlink
  · cases hlink
  · exact absurd hin (hf.outside (by rw [hlink]; rfl))

/-! ## A workspace that stands -/

theorem Tended.edits (ht : ws.Tended files fs)
    (h : Edits ws.location (fun target => Path.isContained target = true) fs fs') :
    ws.Tended files fs' :=
  ⟨h.rooted ht.toRooted, h.start.trans ht.start, ht.outside.trans h.sameOutside⟩

/-- What was there when the workspace was made still is. -/
theorem Tended.grows (ht : ws.Tended files fs) (hf : ws.Founded files place) :
    Grows files fs := by
  refine ⟨ht.start, fun {l n} hn => ⟨n, ?_, .inl rfl⟩⟩
  rw [ht.outside l (hf.outside (by rw [hn]; rfl)), hn]

/-- The path of the workspace leads to its directory. -/
theorem Tended.find (ht : ws.Tended files fs) (hf : ws.Founded files place) (follow : Bool) :
    ∃ mode, fs.find follow ws.root = .ok (ws.location, .directory mode) := by
  obtain ⟨mode, hmode⟩ := ht.directory
  obtain ⟨hadm, -⟩ := locatePlace_ok hf.named_by
  refine ⟨mode, find_eq_ok.mpr ⟨hadm, ?_, hmode⟩⟩
  rw [hf.location] at hmode ⊢
  exact leadsTo_place hf.named_by hf.named hf.short (ht.grows hf) hmode (by simp) fun _ => rfl

theorem Tended.canonicalize (ht : ws.Tended files fs) (hf : ws.Founded files place) :
    fs.canonicalize ws.root = .ok ws.location := by
  obtain ⟨mode, hfind⟩ := ht.find hf true
  exact canonicalize_of_find hfind

/-- **Making.** A new workspace stands where it was made. -/
theorem create_ok {root : Path} {made : FileSystem} (htree : files.IsTree)
    (h : create files root = .ok (made, ws)) :
    (∃ place, ws.Founded files place) ∧ ws.Tended files made ∧ ws.root = root := by
  unfold create at h
  cases hmk : files.mkdir root with
  | error fault => simp [hmk] at h
  | ok fs =>
      obtain ⟨place, mode, hplace, hnamed, hshort, hfree, halter, rfl⟩ := mkdir_ok hmk
      have hf : Founded ⟨root, place.location⟩ files place :=
        ⟨htree, hplace, hnamed, hshort, hfree, halter, rfl⟩
      have ht := hf.made mode
      have hcanon := ht.canonicalize hf
      simp only [hmk, hcanon, Except.ok.injEq, Prod.mk.injEq] at h
      obtain ⟨rfl, rfl⟩ := h
      exact ⟨⟨place, hf⟩, ht, rfl⟩

/-! ## Fixtures -/

/-- **Fixtures.** A workspace that stands does so after every fixture. -/
theorem Tended.apply {h : Host} (ht : ws.Tended files h.files) (hf : ws.Founded files place)
    (htrue : h.Truthful) (fixture : Fixture) : ws.Tended files (ws.apply h fixture).1 := by
  have hbase := ht.canonicalize hf
  refine ht.edits (apply_edits htrue ht.tree hbase fixture fun hcontained _ l node hfind => ?_)
  obtain ⟨-, hleads, -⟩ := find_eq_ok.mp hfind
  obtain ⟨n, m, hrest⟩ := leads_resolve hbase hcontained hleads
  exact ht.inside hrest List.prefix_rfl (Path.isContained_spec hcontained).2.2

/-! ## The removal -/

/-- The directory of a workspace can be removed when it is empty. -/
theorem Tended.rmdir (ht : ws.Tended files fs) (hf : ws.Founded files place)
    (hbare : ∀ name, fs.get? (ws.location ++ [name]) = none) :
    fs.rmdir ws.root = .ok (fs.erase ws.location) := by
  obtain ⟨mode, hmode⟩ := ht.directory
  have hplace := locatePlace_mono (ht.grows hf) hf.named_by
  have halter : fs.mayAlter place.dir = true := by
    rw [mayAlter_congr (ht.outside _ hf.location_ne_dir)]
    exact hf.alter
  have hnamed := hf.named
  simp only [Place.isNamed, Bool.and_eq_true, decide_eq_true_eq] at hnamed
  rw [hf.location] at hmode hbare ⊢
  simp [FileSystem.rmdir, hplace, bind, Except.bind, hnamed, Nat.not_lt.mpr hf.short,
    rmdirAt_eq_ok hmode halter hbare, Place.location]

/-- **Removal.** The directory of a workspace is gone after the removal
exactly when it could be cleared. -/
theorem Tended.remove_iff {h : Host} (ht : ws.Tended files h.files) (hf : ws.Founded files place)
    (htrue : h.Truthful) :
    (ws.remove h).get? ws.location = none ↔ h.files.Clearable ws.location := by
  obtain ⟨mode, hfind⟩ := ht.find hf false
  obtain ⟨-, -, hmode⟩ := find_eq_ok.mp hfind
  obtain ⟨s, hs, hsmode⟩ := Host.status_of_find htrue hfind
  have hremove : ws.remove h = ((emptyDirectory h.files.depth h.files ws.location).andThen
      fun fs' => Attempt.ofCall fs' (fs'.rmdir ws.root)).files := by
    simp [remove, Host.removeAll, hs, Status.isLink_of_directory hsmode, removeTree, hfind,
      Node.isDirectory]
  have hemptied : ws.Tended files (emptyDirectory h.files.depth h.files ws.location).files :=
    ht.edits (edits_emptyDirectory _ _ _ ht.tree List.prefix_rfl)
  rw [hremove]
  constructor
  · intro hgone
    rw [← emptyDirectory_fault_iff ht.tree hmode]
    generalize emptyDirectory h.files.depth h.files ws.location = a at hemptied hgone ⊢
    obtain ⟨files', fault⟩ := a
    cases fault with
    | none => rfl
    | some fault =>
        obtain ⟨mode', hmode'⟩ := hemptied.directory
        cases hmode'.symm.trans hgone
  · intro hclear
    obtain ⟨files', hempty, hbare⟩ := emptyDirectory_of_clearable h.files.depth h.files
      ws.location mode ht.tree (shallow_depth h.files ws.location) hmode hclear
    rw [hempty] at hemptied ⊢
    simp only [Attempt.andThen, hemptied.rmdir hf hbare, Attempt.ofCall]
    rw [get?_erase, if_pos rfl]

end Workspace

end Conformance
