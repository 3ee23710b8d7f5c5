import Conformance.Proofs.Workspace.Allowed

/-!
# Fixtures that stay in the workspace

Every call of an action is about a place the path names or about what it
leads to. The places of an allowed path lie in the workspace; so an
action on a path that leads nowhere outside edits the workspace and
nothing else (`perform_edits`), also when it stops half way.
-/

namespace Conformance

open FileSystem

variable {root : Location} {links : Path → Prop} {fs fs' : FileSystem} {h : Host} {p : Path}

/-! ## Calls at places in the root -/

/-- What is written lies in the root, and the path leads to it. -/
theorem write_inside {content : Bytes} (hplaces : PlacesIn root fs p)
    (hw : fs.write content p = .ok fs') : Edits root links fs fs' ∧ FindsIn root fs' true p := by
  obtain ⟨place, hplace, hnamed, hslash, hshort, hcase⟩ := write_ok hw
  obtain ⟨-, -, dirMode, hdir, -⟩ := locatePlace_ok hplace
  have hin := hplaces place hplace hnamed
  have hinside : root <+: place.location := hin.trans (List.prefix_append ..)
  -- Whether it was there or not, a file is at the place now.
  obtain ⟨hedits, hgrow, mode, hfile⟩ : Edits root links fs fs' ∧ Grows fs fs'
      ∧ ∃ mode, fs'.get? place.location = some (.file mode content) := by
    rcases hcase with ⟨hfree, rfl⟩ | ⟨mode, old, hold, rfl⟩
    · exact ⟨.single (.add hin hdir hfree (by simp)), grows_add hfree _, newFile, by
        rw [get?_add, if_pos rfl]⟩
    · exact ⟨.single (.replace hinside hold .file), grows_replace_file hold, writtenTo mode, by
        rw [get?_replace, if_pos rfl, hold]; rfl⟩
  refine ⟨hedits, fun l node hfind => ?_⟩
  have hleads : fs'.LeadsTo true p place.location :=
    leadsTo_place hplace hnamed hshort hgrow hfile (by simp) fun hs =>
      absurd hs (by simp [hslash])
  obtain rfl := hleads.unique (find_eq_ok.mp hfind).2.1
  exact hinside

theorem symlink_inside {target : Path} (hplaces : PlacesIn root fs p) (htarget : links target)
    (hs : fs.symlink target p = .ok fs') : Edits root links fs fs' := by
  obtain ⟨place, hplace, hnamed, -, hfree, rfl⟩ := symlink_ok hs
  obtain ⟨-, -, mode, hdir, -⟩ := locatePlace_ok hplace
  refine .single (.add (hplaces place hplace hnamed) hdir hfree fun target' heq => ?_)
  cases heq
  exact htarget

theorem unlink_inside (htree : fs.IsTree) (hplaces : PlacesIn root fs p)
    (hu : fs.unlink p = .ok fs') : Edits root links fs fs' := by
  obtain ⟨place, node, hplace, hnamed, -, hnode, hnodir, rfl⟩ := unlink_ok hu
  refine .single (.erase (hplaces place hplace hnamed)
    (bare_of_not_directory htree fun mode hmode => ?_))
  obtain rfl := Option.some.inj (hnode.symm.trans hmode)
  cases hnodir

theorem extend_inside {content : Bytes} (hfinds : FindsIn root fs false p)
    (he : fs.extend content p = .ok fs') : Edits root links fs fs' := by
  obtain ⟨l, mode, old, hfind, ⟨-, rfl⟩ | rfl⟩ := extend_ok he
  · exact .refl
  · exact .single (.replace (hfinds l _ hfind) (find_eq_ok.mp hfind).2.2 .file)

theorem setMode_inside {mode : Option Permissions} (hfinds : FindsIn root fs true p) :
    Edits root links fs (Workspace.setMode p mode fs).files := by
  cases mode with
  | none => exact .refl
  | some mode =>
      refine edits_ofCall fun fs' hc => ?_
      obtain ⟨l, node, hfind, rfl⟩ := chmod_ok hc
      exact .single (.replace (hfinds l node hfind) (find_eq_ok.mp hfind).2.2
        (node.sameSort_withPermissions _))

/-- A tree is removed in the root, where the path leads into it and names
places in it, also when less is there. -/
theorem removeTree_inside (htree : fs.IsTree) (hfinds : FindsIn root fs false p)
    (hplaces : ∀ {fs'}, Grows fs' fs → PlacesIn root fs' p) :
    Edits root links fs (fs.removeTree p).files := by
  unfold removeTree
  cases hfind : fs.find false p with
  | error fault => exact .refl
  | ok found =>
      obtain ⟨l, node⟩ := found
      dsimp only
      split
      · exact .refl
      · have hshrinks := shrinks_emptyDirectory fs.depth fs l
        refine edits_andThen (edits_emptyDirectory fs.depth fs l htree (hfinds l node hfind))
          fun _ => edits_ofCall fun fs' hr => ?_
        obtain ⟨place, mode, hplace, hnamed, -, -, hbare, rfl⟩ := rmdir_ok hr
        exact .single (.erase (hplaces hshrinks.grows place hplace hnamed) hbare)

/-! ## Paths that lead nowhere outside -/

theorem FindsIn.follow (hfinds : FindsIn root fs false p)
    (hlink : ∀ l target, fs.find false p ≠ .ok (l, .link target)) : FindsIn root fs true p := by
  intro l node hfind
  rcases find_of_follow hfind with hsame | ⟨l', target, hl⟩
  · exact hfinds l node hsame
  · exact absurd hl (hlink l' target)

/-- **Safety.** An action on an allowed path that leads nowhere outside
edits what is in the root, and makes no link but its own. -/
theorem perform_edits (htrue : h.Truthful) (htree : h.files.IsTree)
    (hp : Allowed root h.files p) (hfinds : FindsIn root h.files false p) {action : FixtureAction}
    (hlink : action.actsOnLinks = false →
      ∀ l target, h.files.find false p ≠ .ok (l, .link target))
    (hlinks : ∀ target, action = .symlink target → links target) :
    Edits root links h.files (Workspace.perform h p action).files := by
  have hplaces := hp.places (.refl h.files)
  cases action with
  | create content mode =>
      obtain ⟨hmaking, hmade⟩ : Edits root links h.files (Workspace.ensureParent h p).files ∧ _ :=
        hp.ensureParent htrue htree
      unfold Workspace.perform
      generalize Workspace.ensureParent h p = a at hmaking hmade ⊢
      obtain ⟨files, fault⟩ := a
      cases fault with
      | some fault => exact hmaking
      | none =>
          simp only [Attempt.andThen]
          cases hw : files.write content p with
          | error fault => exact hmaking
          | ok files' =>
              obtain ⟨hwritten, hthere⟩ : Edits root links files files' ∧ _ :=
                write_inside (hmade rfl) hw
              exact (hmaking.trans hwritten).trans (setMode_inside hthere)
  | mkdir mode =>
      have hfollow := hfinds.follow (hlink rfl)
      obtain ⟨hmaking, hmade⟩ := hp.mkdirAll htrue htree hfollow
      exact edits_andThen hmaking fun hnone => setMode_inside (hmade hnone)
  | symlink target =>
      obtain ⟨hmaking, hmade⟩ := hp.ensureParent htrue htree
      exact edits_andThen hmaking fun hnone =>
        edits_ofCall fun fs' => symlink_inside (hmade hnone) (hlinks target rfl)
  | chmod mode => exact setMode_inside (hfinds.follow (hlink rfl))
  | write content => exact edits_ofCall fun fs' hw => (write_inside hplaces hw).1
  | append content => exact edits_ofCall fun fs' => extend_inside hfinds
  | remove =>
      have hunlink : Edits root links h.files (Attempt.ofCall h.files (h.files.unlink p)).files :=
        edits_ofCall fun fs' => unlink_inside htree hplaces
      unfold Workspace.perform Host.removeAll
      cases hs : h.status false p with
      | error fault => exact .refl
      | ok s =>
          dsimp only
          split
          · split
            · exact hunlink
            · exact removeTree_inside htree hfinds hp.places
          · exact hunlink

/-! ## Fixtures -/

/-- A fixture changes nothing when it is refused, and is its action
otherwise. -/
theorem Workspace.apply_files (ws : Workspace) (h : Host) (fixture : Fixture) :
    (ws.apply h fixture).1 = h.files
      ∨ Path.isContained fixture.path = true
        ∧ ws.confine h fixture.action (ws.resolve fixture.path) = .ok ()
        ∧ Workspace.strayTarget? fixture.action = none
        ∧ (ws.apply h fixture).1
            = (Workspace.perform h (ws.resolve fixture.path) fixture.action).files := by
  unfold Workspace.apply
  by_cases hf : Path.isContained fixture.path = true
  · cases hok : ws.confine h fixture.action (ws.resolve fixture.path) with
    | error fault => simp [hf, hok]
    | ok u => cases Workspace.strayTarget? fixture.action <;> simp [hf, hok]
  · simp [hf]

/-- **Fixtures.** A fixture edits the workspace, if its path leads nowhere
outside when it is allowed, and every link it makes has a target that
leads nowhere outside by its names. -/
theorem Workspace.apply_edits (htrue : h.Truthful) (htree : h.files.IsTree) {ws : Workspace}
    (hbase : h.files.canonicalize ws.root = .ok ws.location) (fixture : Fixture)
    (hfinds : Path.isContained fixture.path = true →
      Allowed ws.location h.files (ws.resolve fixture.path) →
      FindsIn ws.location h.files false (ws.resolve fixture.path)) :
    Edits ws.location (fun target => Path.isContained target = true) h.files
      (ws.apply h fixture).1 := by
  rcases ws.apply_files h fixture with hsame | ⟨hf, hok, hstray, hperform⟩
  · rw [hsame]
  · have hp := allowed_of_confine hbase hf hok
    rw [hperform]
    refine perform_edits htrue htree hp (hfinds hf hp) (not_link_of_confine htrue hok) ?_
    intro target haction
    rw [haction, Workspace.strayTarget?] at hstray
    by_cases htarget : Path.isContained target = true
    · exact htarget
    · rw [if_neg htarget] at hstray
      cases hstray

end Conformance
