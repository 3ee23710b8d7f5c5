import Mathlib
import Conformance.Proofs.Workspace.Inside

/-!
# Fixtures and what is outside the workspace

An action on an allowed path that leads nowhere outside edits the
workspace only, so it changes nothing there.

An allowed path can lead outside all the same (`Workspace.Leaves`): when
its last name is a link to a directory there and a separator or `.`
stands behind it. Confinement does not see the tail and lets such a path
through as that of a directory (`Tailed.confine`). If it is a `Detour`, an
action does to the directory outside what it says (`Detour.perform`), and
nothing else ever changes there (`Workspace.apply_sameOutside_iff`).
-/

namespace Conformance

open FileSystem

/-- A host as it really is: it says what its files are, they are a tree,
and their permissions are no bits of a type. -/
structure Host.Faithful (h : Host) : Prop where
  truthful : h.Truthful
  tree : h.files.IsTree
  bits : ∀ {l node}, h.files.get? l = some node → node.permissions.mode &&& Status.typeMask = 0

/-- The nodes themselves tell whether a host is as it really is. -/
theorem Host.faithful_of_nodes {h : Host} (hoverlay : h.overlay = fun _ => none)
    (htree : ∀ e ∈ h.files.nodes,
      e.1 = [] ∨ (h.files.get? e.1.dropLast).any Node.isDirectory = true)
    (hbits : ∀ e ∈ h.files.nodes, e.2.permissions.mode &&& Status.typeMask = 0) : h.Faithful where
  truthful _ := .inl (by rw [hoverlay])
  tree := isTree_of_nodes htree
  bits {l node} hnode := by
    obtain ⟨before, after, hnodes, -⟩ := List.lookup_eq_some_iff.mp hnode
    exact hbits (l, node) (by rw [hnodes]; simp)

variable {root : Location} {fs fs' : FileSystem} {ws : Workspace} {h : Host} {p : Path}

/-! ## Paths that lead outside -/

/-- A path of the workspace leads outside, to a directory: its parent
leads into the workspace, and the path does not. -/
structure Workspace.Leaves (ws : Workspace) (fs : FileSystem) (f : Path) (dir : Location) :
    Prop where
  contained : Path.isContained f = true
  parent : ∃ up l, Path.parent (ws.resolve f) = some up ∧ fs.canonicalize up = .ok l
    ∧ ws.location <+: l
  there : ∃ node, fs.find false (ws.resolve f) = .ok (dir, node)
  outside : ¬ ws.location <+: dir

/-- What an action does to the directory that its path leads to by a
tail. All that asks for a name there fails. -/
def FixtureAction.actAt (fs : FileSystem) (dir : Location) : FixtureAction → FileSystem
  | .chmod mode | .mkdir (some mode) => fs.replace dir (.directory (Permissions.ofMode mode.mode))
  | .remove => (emptyDirectory fs.depth fs dir).files
  | _ => fs

/-- An allowed path leads nowhere outside, unless it leaves. -/
theorem Allowed.findsIn {f : Path} (hf : Path.isContained f = true)
    (hp : Allowed ws.location fs (ws.resolve f)) (hno : ∀ dir, ¬ ws.Leaves fs f dir) :
    FindsIn ws.location fs false (ws.resolve f) := by
  intro l node hfind
  refine Classical.not_not.mp fun hout => ?_
  obtain ⟨hadm, hleads, -⟩ := find_eq_ok.mp hfind
  obtain ⟨hnul, -⟩ := admissible_eq_ok.mp hadm
  cases hp with
  | back _ _ _ hback => exact hout (hback hleads ▸ List.prefix_rfl)
  | below hparent hb hname hup =>
      obtain ⟨l', -, -, hl', -⟩ := leadsTo_below hb hup.ne_nil hnul hleads
      exact hno l ⟨hf, ⟨_, l', hparent, hl', hup.inside hl'⟩, ⟨node, hfind⟩, hout⟩

/-- A path leads to a directory by the tail behind its last name. The name
itself is not looked at: a link there is followed. -/
inductive Tailed (fs : FileSystem) (p : Path) (dir : Location) (mode : Permissions) : Prop
  | intro {up dots name tail l} (hparent : Path.parent p = some up)
    (hb : Path.Below p up dots name tail) (htail : tail ≠ []) (hcanon : fs.canonicalize up = .ok l)
    (hfind : fs.find false p = .ok (dir, .directory mode)) : Tailed fs p dir mode

/-- A path leads to a directory by the tail behind its last name, and not
to one below the place where its parent leads. -/
inductive Detour (fs : FileSystem) (p : Path) (dir : Location) (mode : Permissions) : Prop
  | intro {up dots name tail l} (hparent : Path.parent p = some up)
    (hb : Path.Below p up dots name tail) (htail : tail ≠ []) (hup : up ≠ [])
    (hcanon : fs.canonicalize up = .ok l)
    (hfind : fs.find false p = .ok (dir, .directory mode)) (hout : ¬ l <+: dir) :
    Detour fs p dir mode

/-- A path that leaves makes a detour. -/
theorem Workspace.Leaves.detour {f : Path} {dir : Location}
    (hbase : fs.canonicalize ws.root = .ok ws.location) (hl : ws.Leaves fs f dir) :
    ∃ mode, Detour fs (ws.resolve f) dir mode := by
  obtain ⟨hf, ⟨up, l, hparent, hup, hin⟩, ⟨node, hfind⟩, hout⟩ := hl
  obtain ⟨hadm, hleads, hnode⟩ := find_eq_ok.mp hfind
  obtain ⟨hnul, -⟩ := admissible_eq_ok.mp hadm
  have hp : Allowed ws.location fs (ws.resolve f) :=
    allowed_resolve hbase hf fun hparent' _ _ => by
      obtain rfl := Option.some.inj (hparent.symm.trans hparent')
      exact .here hup hin
  cases hp with
  | back _ _ _ hback => exact absurd (hback hleads ▸ List.prefix_rfl) hout
  | @below up' dots name tail hparent' hb hname hup' =>
      obtain rfl := Option.some.inj (hparent.symm.trans hparent')
      have htail : tail ≠ [] := by
        rintro rfl
        obtain ⟨l', hl', rfl⟩ := leadsTo_untailed hb hup'.ne_nil hnul hname hleads
        exact hout ((hup'.inside hl').trans (List.prefix_append ..))
      obtain ⟨mode, hdir⟩ := directory_of_tailed hb htail hleads
      obtain rfl := Option.some.inj (hnode.symm.trans hdir)
      exact ⟨mode, .intro hparent hb htail hup'.ne_nil hup hfind fun hpre =>
        hout (hin.trans hpre)⟩

/-! ## Paths with a tail -/

section

variable {up : Path} {dots tail : List Bytes} {name : Bytes}

/-- Nothing is made at a place that has something behind its name. -/
theorem write_of_tailed (hb : Path.Below p up dots name tail) (htail : tail ≠ []) (hup : up ≠ [])
    (content : Bytes) : ∃ fault, fs.write content p = .error fault := by
  cases hw : fs.write content p with
  | error fault => exact ⟨fault, rfl⟩
  | ok fs' =>
      obtain ⟨place, hplace, hnamed, hslash, -⟩ := write_ok hw
      obtain ⟨-, -, rfl⟩ := locatePlace_below hb hup hplace hnamed
      rw [hslash] at htail
      exact absurd rfl htail

theorem symlink_of_tailed (hb : Path.Below p up dots name tail) (htail : tail ≠ []) (hup : up ≠ [])
    (target : Path) : ∃ fault, fs.symlink target p = .error fault := by
  cases hs : fs.symlink target p with
  | error fault => exact ⟨fault, rfl⟩
  | ok fs' =>
      obtain ⟨place, hplace, hnamed, hslash, -⟩ := symlink_ok hs
      obtain ⟨-, -, rfl⟩ := locatePlace_below hb hup hplace hnamed
      rw [hslash] at htail
      exact absurd rfl htail

theorem ensureParent_of_canonicalize {l : Location} (hparent : Path.parent p = some up)
    (hcanon : h.files.canonicalize up = .ok l) : (Workspace.ensureParent h p).files = h.files := by
  unfold Workspace.ensureParent
  rw [hparent]
  exact makeDirectories_of_canonicalize hcanon _

/-- No file is created where none can be written, if the parent is there. -/
theorem create_of_write_error {l : Location} {content : Bytes} {fault : OsFault}
    (hparent : Path.parent p = some up) (hcanon : h.files.canonicalize up = .ok l)
    (hw : h.files.write content p = .error fault) (mode : Option Permissions) :
    ∃ fault, Workspace.perform h p (.create content mode) = ⟨h.files, some fault⟩ := by
  obtain ⟨fault', hfails⟩ := andThen_error (fun fs => fs.write content p)
    (ensureParent_of_canonicalize hparent hcanon) hw
  exact ⟨fault', by rw [Workspace.perform, hfails]; rfl⟩

end

namespace Tailed

variable {dir : Location} {mode : Permissions}

theorem find (ht : Tailed fs p dir mode) : fs.find false p = .ok (dir, .directory mode) := by
  obtain ⟨-, -, -, -, hfind⟩ := ht
  exact hfind

theorem find_follow (ht : Tailed fs p dir mode) :
    fs.find true p = .ok (dir, .directory mode) :=
  FileSystem.find_follow ht.find (by simp)

theorem write (ht : Tailed fs p dir mode) (content : Bytes) :
    ∃ fault, fs.write content p = .error fault := by
  obtain ⟨-, hb, htail, hcanon, -⟩ := ht
  exact write_of_tailed hb htail (canonicalize_eq_ok.mp hcanon).2.1 content

theorem symlink (ht : Tailed fs p dir mode) (target : Path) :
    ∃ fault, fs.symlink target p = .error fault := by
  obtain ⟨-, hb, htail, hcanon, -⟩ := ht
  exact symlink_of_tailed hb htail (canonicalize_eq_ok.mp hcanon).2.1 target

theorem ensureParent (ht : Tailed h.files p dir mode) :
    (Workspace.ensureParent h p).files = h.files := by
  obtain ⟨hparent, -, -, hcanon, -⟩ := ht
  exact ensureParent_of_canonicalize hparent hcanon

theorem create (ht : Tailed h.files p dir mode) (content : Bytes) (mode' : Option Permissions) :
    ∃ fault, Workspace.perform h p (.create content mode') = ⟨h.files, some fault⟩ := by
  obtain ⟨fault, hw⟩ := ht.write content
  obtain ⟨hparent, -, -, hcanon, -⟩ := ht
  exact create_of_write_error hparent hcanon hw mode'

theorem setMode (ht : Tailed fs p dir mode) (mode' : Permissions) :
    Workspace.setMode p (some mode') fs
      = ⟨fs.replace dir (.directory (Permissions.ofMode mode'.mode)), none⟩ := by
  simp [Workspace.setMode, chmod, ht.find_follow, bind, Except.bind, pure, Except.pure,
    Attempt.ofCall, Node.withPermissions]

/-- The host says that a directory is there, and no link. -/
theorem status (hh : h.Faithful) (ht : Tailed h.files p dir mode) (follow : Bool) :
    ∃ s, h.status follow p = .ok s ∧ s.isDirectory = true ∧ s.isLink = false := by
  have hfind : h.files.find follow p = .ok (dir, .directory mode) := by
    cases follow with
    | false => exact ht.find
    | true => exact ht.find_follow
  obtain ⟨s, hs, hmode⟩ := Host.status_of_find hh.truthful hfind
  exact ⟨s, hs, Status.isDirectory_of_directory hmode (hh.bits (find_eq_ok.mp hfind).2.2),
    Status.isLink_of_directory hmode⟩

theorem mkdirAll (hh : h.Faithful) (ht : Tailed h.files p dir mode) :
    h.mkdirAll p = ⟨h.files, none⟩ := by
  have hcanon := canonicalize_of_find ht.find_follow
  obtain ⟨fault, hmk, hnot⟩ := mkdir_error_of_canonicalize hcanon
  obtain ⟨s, hs, hdir, -⟩ := ht.status hh true
  have hthere : h.isDirectory p = true := by
    unfold Host.isDirectory
    rw [hs]
    exact hdir
  unfold Host.mkdirAll Host.makeDirectories
  rw [if_neg (canonicalize_eq_ok.mp hcanon).2.1, hmk]
  dsimp only
  rw [if_pos (by simp [hnot]), if_pos hthere]

/-- A path with a tail is let through where its parent leads inside. -/
theorem confine (hh : h.Faithful) (ht : Tailed h.files p dir mode) {up : Path} {l : Location}
    (hparent : Path.parent p = some up) (hcanon : h.files.canonicalize up = .ok l)
    (hin : ws.location <+: l) (action : FixtureAction) : ws.confine h action p = .ok () := by
  obtain ⟨s, hs, -, hlink⟩ := ht.status hh false
  unfold Workspace.confine
  rw [hparent, Workspace.confineAncestor]
  simp [hcanon, hin, hs, hlink, bind, Except.bind]

end Tailed

namespace Detour

variable {dir : Location} {mode : Permissions}

theorem tailed (hd : Detour fs p dir mode) : Tailed fs p dir mode := by
  obtain ⟨hparent, hb, htail, -, hcanon, hfind, -⟩ := hd
  exact .intro hparent hb htail hcanon hfind

/-- The directory itself is not removed: it would have to be where the
parent leads, also where less is there than before. -/
theorem rmdir (hd : Detour fs p dir mode) (hgrow : Grows fs' fs) :
    ∃ fault, fs'.rmdir p = .error fault := by
  have hfollow := hd.tailed.find_follow
  obtain ⟨-, hb, -, hup, hcanon, -, hout⟩ := hd
  cases hr : fs'.rmdir p with
  | error fault => exact ⟨fault, rfl⟩
  | ok fs'' =>
      obtain ⟨place, mode', hplace, hnamed, hshort, hdir, -⟩ := rmdir_ok hr
      obtain ⟨hcanon', -, -⟩ := locatePlace_below hb hup hplace hnamed
      obtain rfl := Except.ok.inj (hcanon.symm.trans (canonicalize_mono hgrow hcanon'))
      have hleads : fs.LeadsTo true p place.location :=
        leadsTo_place hplace hnamed hshort hgrow (hgrow.directory hdir) (by simp) fun _ => rfl
      obtain rfl := hleads.unique (find_eq_ok.mp hfollow).2.1
      exact absurd (List.prefix_append ..) hout

/-- The removal empties the directory, which stays. -/
theorem remove (hh : h.Faithful) (hd : Detour h.files p dir mode) :
    (Workspace.perform h p .remove).files = (emptyDirectory h.files.depth h.files dir).files := by
  obtain ⟨s, hs, hdir, hlink⟩ := hd.tailed.status hh false
  have hshrinks := shrinks_emptyDirectory h.files.depth h.files dir
  simp only [Workspace.perform, hs, hdir, if_true, Host.removeAll, hlink, Bool.false_eq_true,
    if_false, removeTree, hd.tailed.find, Node.isDirectory, Bool.not_true]
  generalize emptyDirectory h.files.depth h.files dir = a at hshrinks ⊢
  obtain ⟨files, fault⟩ := a
  cases fault with
  | some fault => rfl
  | none =>
      obtain ⟨fault, hr⟩ := hd.rmdir hshrinks.grows
      simp only [Attempt.andThen, hr, Attempt.ofCall]

/-- **Detours.** An action does to the directory what it says, and nothing
else. -/
theorem perform (hh : h.Faithful) (hd : Detour h.files p dir mode) (action : FixtureAction) :
    (Workspace.perform h p action).files = action.actAt h.files dir := by
  have ht := hd.tailed
  cases action with
  | create content mode' =>
      obtain ⟨fault, hcreate⟩ := ht.create content mode'
      rw [hcreate]
      rfl
  | mkdir mode' =>
      simp only [Workspace.perform, ht.mkdirAll hh, Attempt.andThen]
      cases mode' with
      | none => rfl
      | some mode' => rw [ht.setMode mode', FixtureAction.actAt]
  | symlink target =>
      obtain ⟨fault, hs⟩ := ht.symlink target
      obtain ⟨fault', hfails⟩ := andThen_error (fun fs => fs.symlink target p) ht.ensureParent hs
      simp only [Workspace.perform, hfails]
      rfl
  | chmod mode' => rw [Workspace.perform, ht.setMode mode', FixtureAction.actAt]
  | write content =>
      obtain ⟨fault, hw⟩ := ht.write content
      simp only [Workspace.perform, hw, Attempt.ofCall]
      rfl
  | append content =>
      simp only [Workspace.perform, extend, ht.find, bind, Except.bind, Attempt.ofCall]
      rfl
  | remove => exact hd.remove hh

end Detour

/-- A path that leaves is let through. -/
theorem Workspace.Leaves.confine {f : Path} {dir : Location} (action : FixtureAction)
    (hh : h.Faithful) (hbase : h.files.canonicalize ws.root = .ok ws.location)
    (hl : ws.Leaves h.files f dir) : ws.confine h action (ws.resolve f) = .ok () := by
  obtain ⟨mode, hd⟩ := hl.detour hbase
  obtain ⟨up, l, hparent, hup, hin⟩ := hl.parent
  exact hd.tailed.confine hh hparent hup hin action

/-! ## Fixtures -/

/-- **Escape.** On a path that leaves, a fixture does to the directory
outside what its action says, and nothing else. -/
theorem Workspace.Leaves.apply {fixture : Fixture} {dir : Location} (hh : h.Faithful)
    (hbase : h.files.canonicalize ws.root = .ok ws.location)
    (hl : ws.Leaves h.files fixture.path dir) :
    (ws.apply h fixture).1 = fixture.action.actAt h.files dir := by
  obtain ⟨mode, hd⟩ := hl.detour hbase
  have hperform := hd.perform hh fixture.action
  cases hstray : Workspace.strayTarget? fixture.action with
  | none => simp [Workspace.apply, hl.contained, hl.confine _ hh hbase, hstray, hperform]
  | some target =>
      -- Only a link has a target, and none is made here either way.
      cases haction : fixture.action with
      | symlink target' =>
          have hconfine := hl.confine fixture.action hh hbase
          simp [Workspace.apply, hl.contained, hconfine, hstray, FixtureAction.actAt]
      | _ => simp [haction, Workspace.strayTarget?] at hstray

theorem Workspace.apply_sameOutside {fixture : Fixture} (hh : h.Faithful)
    (hbase : h.files.canonicalize ws.root = .ok ws.location)
    (hno : ∀ dir, ¬ ws.Leaves h.files fixture.path dir) :
    SameOutside ws.location h.files (ws.apply h fixture).1 :=
  (Workspace.apply_edits hh.truthful hh.tree hbase fixture fun hf hp =>
    hp.findsIn hf hno).sameOutside

/-- **Outside.** A fixture leaves everything outside the workspace as it
was exactly when its action does so at the directory outside to which its
path leads, if it leads to one. -/
theorem Workspace.apply_sameOutside_iff (hh : h.Faithful)
    (hbase : h.files.canonicalize ws.root = .ok ws.location) (fixture : Fixture) :
    SameOutside ws.location h.files (ws.apply h fixture).1
      ↔ ∀ dir, ws.Leaves h.files fixture.path dir →
          SameOutside ws.location h.files (fixture.action.actAt h.files dir) := by
  constructor
  · intro hsame dir hl
    rwa [hl.apply hh hbase] at hsame
  · intro hact
    by_cases hno : ∀ dir, ¬ ws.Leaves h.files fixture.path dir
    · exact Workspace.apply_sameOutside hh hbase hno
    · obtain ⟨dir, hl⟩ := Classical.not_forall.mp hno
      have hl := Classical.not_not.mp hl
      rw [hl.apply hh hbase]
      exact hact dir hl

namespace LinkedOut

/-- A workspace with a link to a directory beside it, which has a file. -/
def host : Host where
  files := ⟨[([], .directory ⟨0o755⟩), ([Path.ofText "w"], .directory ⟨0o755⟩),
    ([Path.ofText "w", Path.ofText "l"], .link (Path.ofText "/o")),
    ([Path.ofText "o"], .directory ⟨0o755⟩),
    ([Path.ofText "o", Path.ofText "victim"], .file ⟨0o644⟩ [])], []⟩
  overlay _ := none
  base := ⟨0, 0, 0, ⟨0, 0⟩, ⟨0, 0⟩, ⟨0, 0⟩⟩
  names := ⟨fun _ _ _ => .nothing⟩

def workspace : Workspace := ⟨Path.ofText "/w", [Path.ofText "w"]⟩

def removal : Fixture := ⟨Path.ofText "l/.", .remove⟩

theorem faithful : host.Faithful :=
  Host.faithful_of_nodes rfl (by decide +kernel) (by decide +kernel)

end LinkedOut

/-- The removal through the link takes the file away, so the directory
outside is one whose emptying changes something. -/
theorem Workspace.apply_sameOutside_iff_linkedOut :
    LinkedOut.host.Faithful
      ∧ LinkedOut.host.files.canonicalize LinkedOut.workspace.root
          = .ok LinkedOut.workspace.location
      ∧ (SameOutside LinkedOut.workspace.location LinkedOut.host.files
          (LinkedOut.workspace.apply LinkedOut.host LinkedOut.removal).1
        ↔ ∀ dir, LinkedOut.workspace.Leaves LinkedOut.host.files LinkedOut.removal.path dir →
            SameOutside LinkedOut.workspace.location LinkedOut.host.files
              (LinkedOut.removal.action.actAt LinkedOut.host.files dir)) :=
  ⟨LinkedOut.faithful, by cbv,
    Workspace.apply_sameOutside_iff LinkedOut.faithful (by cbv) LinkedOut.removal⟩

/-- Not every fixture leaves everything outside as it was. -/
theorem Workspace.apply_not_sameOutside :
    LinkedOut.host.Faithful
      ∧ LinkedOut.host.files.canonicalize LinkedOut.workspace.root
          = .ok LinkedOut.workspace.location
      ∧ ¬ SameOutside LinkedOut.workspace.location LinkedOut.host.files
          (LinkedOut.workspace.apply LinkedOut.host LinkedOut.removal).1 := by
  refine ⟨LinkedOut.faithful, by cbv, fun hsame => ?_⟩
  have hgone : (LinkedOut.workspace.apply LinkedOut.host LinkedOut.removal).1.get?
      [Path.ofText "o", Path.ofText "victim"] = none := by cbv
  have hthere : LinkedOut.host.files.get? [Path.ofText "o", Path.ofText "victim"]
      = some (.file ⟨0o644⟩ []) := by cbv
  have hvictim := hsame [Path.ofText "o", Path.ofText "victim"] (by decide +kernel)
  rw [hgone, hthere] at hvictim
  cases hvictim

end Conformance
