import Conformance.Proofs.Path.Components
import Conformance.Proofs.Workspace.Outside

/-!
# Fixtures at links

Where the last name of a path is that of a link, the actions that are not
about links themselves end in a fault and change nothing, with one
exception (`Workspace.apply_at_link`). Confinement asks for the status of
the path as it is written, and with a separator or a dot behind the name
the link is followed. If it leads to a directory, the path passes for that
directory, and the two actions that are content with a directory work on
it (`Workspace.Slips`).
-/

namespace Conformance

open FileSystem

variable {fs : FileSystem} {ws : Workspace} {h : Host} {p : Path}

/-- A contained path whose last name is that of a link. The way to the link
may be barred, but nothing on it is missing. -/
structure Workspace.NamesLink (ws : Workspace) (fs : FileSystem) (f : Path) : Prop where
  contained : Path.isContained f = true
  there : ∃ up name, Path.parent (ws.resolve f) = some up ∧ Path.fileName f = some name
    ∧ match fs.canonicalize up with
      | .ok dir => ∃ target, fs.get? (dir ++ [name]) = some (.link target)
      | .error fault => fault.isNotFound = false

/-- Whether an action is content with a directory that is there. -/
def FixtureAction.takesDirectory : FixtureAction → Bool
  | .chmod _ | .mkdir _ => true
  | _ => false

/-- A path of the workspace leads to a directory, with the last link
followed or not, and the action is content with that. -/
structure Workspace.Slips (ws : Workspace) (fs : FileSystem) (fixture : Fixture) (d : Location) :
    Prop where
  takes : fixture.action.takesDirectory = true
  parent : ∃ up dir, Path.parent (ws.resolve fixture.path) = some up
    ∧ fs.canonicalize up = .ok dir ∧ ws.location <+: dir
  leads : ∃ mode, fs.find false (ws.resolve fixture.path) = .ok (d, .directory mode)

/-! ## Performing an action that fails -/

/-- Nothing is made and nothing is there: then making directories fails,
and changes nothing if the parent is there. -/
theorem makeDirectories_fails {up : Path} {l : Location} {fault : OsFault}
    (hparent : Path.parent p = some up) (hcanon : h.files.canonicalize up = .ok l) (hne : p ≠ [])
    (hmk : h.files.mkdir p = .error fault) (hdir : h.isDirectory p = false) (fuel : Nat) :
    ∃ fault, h.makeDirectories fuel p = ⟨h.files, some fault⟩ := by
  unfold Host.makeDirectories
  rw [if_neg hne, hmk]
  dsimp only
  split
  · exact ⟨fault, by simp [hdir]⟩
  · rw [hparent]
    cases fuel with
    | zero => exact ⟨_, rfl⟩
    | succ fuel =>
        have hup := makeDirectories_of_canonicalize hcanon fuel
        dsimp only
        generalize h.makeDirectories fuel up = a at hup ⊢
        obtain ⟨files, stopped⟩ := a
        obtain rfl : files = h.files := hup
        cases stopped with
        | some fault' => exact ⟨fault', rfl⟩
        | none => exact ⟨fault, by simp [Attempt.andThen, hmk, hdir]⟩

section

variable {up : Path} {dots tail : List Bytes} {name : Bytes} {dir : Location} {node : Node}
  (hparent : Path.parent p = some up) (hb : Path.Below p up dots name tail)
  (hcanon : h.files.canonicalize up = .ok dir) (hthere : h.files.get? (dir ++ [name]) = some node)

include hb hcanon hthere

/-- No directory is made at a name that is taken. -/
theorem mkdir_of_taken : ∃ fault, h.files.mkdir p = .error fault := by
  cases hmk : h.files.mkdir p with
  | error fault => exact ⟨fault, rfl⟩
  | ok fs' =>
      obtain ⟨place, mode, hplace, hnamed, -, hfree, -⟩ := mkdir_ok hmk
      obtain ⟨hdir, rfl, -⟩ := locatePlace_below hb (canonicalize_eq_ok.mp hcanon).2.1 hplace hnamed
      obtain rfl := Except.ok.inj (hcanon.symm.trans hdir)
      rw [Place.location, hthere] at hfree
      cases hfree

include hparent

/-- Nothing is done at a name that is taken, where the path with its tail
leads nowhere. -/
theorem perform_of_nowhere (hh : h.Faithful) (htail : tail ≠ []) {fault : OsFault}
    (hfind : h.files.find false p = .error fault) {action : FixtureAction}
    (hlinks : action.actsOnLinks = false) :
    ∃ fault, Workspace.perform h p action = ⟨h.files, some fault⟩ := by
  have hwrite : ∀ content, ∃ fault, h.files.write content p = .error fault :=
    write_of_tailed hb htail (canonicalize_eq_ok.mp hcanon).2.1
  obtain ⟨fault', hfollow⟩ : ∃ fault, h.files.find true p = .error fault := by
    cases hfound : h.files.find true p with
    | error fault' => exact ⟨fault', rfl⟩
    | ok found =>
        obtain hsame | ⟨l, target, hlink⟩ := find_of_follow hfound
        · rw [hfind] at hsame
          cases hsame
        · rw [hfind] at hlink
          cases hlink
  have hdir : h.isDirectory p = false := by
    rw [Host.isDirectory, Host.status_of_find_error hh.truthful hfollow]
  cases action with
  | create content mode =>
      obtain ⟨fault, hw⟩ := hwrite content
      exact create_of_write_error hparent hcanon hw mode
  | mkdir mode =>
      obtain ⟨fault, hmk⟩ := mkdir_of_taken hb hcanon hthere
      obtain ⟨fault', hfails⟩ :=
        makeDirectories_fails hparent hcanon hb.ne_nil hmk hdir p.length
      exact ⟨fault', by simp only [Workspace.perform, Host.mkdirAll, hfails, Attempt.andThen]⟩
  | symlink target => cases hlinks
  | chmod mode =>
      refine ⟨fault', ?_⟩
      simp only [Workspace.perform, Workspace.setMode, chmod, hfollow, bind, Except.bind,
        Attempt.ofCall]
  | write content =>
      obtain ⟨fault, hw⟩ := hwrite content
      exact ⟨fault, by simp only [Workspace.perform, hw, Attempt.ofCall]⟩
  | append content =>
      refine ⟨fault, ?_⟩
      simp only [Workspace.perform, extend, hfind, bind, Except.bind, Attempt.ofCall]
  | remove => cases hlinks

end

/-- At a directory, the actions that ask for a file fail. -/
theorem Tailed.perform_fails {dir : Location} {mode : Permissions}
    (ht : Tailed h.files p dir mode) {action : FixtureAction}
    (hlinks : action.actsOnLinks = false) (htakes : action.takesDirectory = false) :
    ∃ fault, Workspace.perform h p action = ⟨h.files, some fault⟩ := by
  cases action with
  | create content mode' => exact ht.create content mode'
  | write content =>
      obtain ⟨fault, hw⟩ := ht.write content
      exact ⟨fault, by simp only [Workspace.perform, hw, Attempt.ofCall]⟩
  | append content =>
      refine ⟨.system .isDirectory, ?_⟩
      simp only [Workspace.perform, extend, ht.find, bind, Except.bind, Attempt.ofCall]
  | mkdir mode' | chmod mode' => cases htakes
  | symlink target | remove => cases hlinks

/-- The two actions that are content with a directory do to it what they
say. -/
theorem Tailed.perform_done (hh : h.Faithful) {dir : Location} {mode : Permissions}
    (ht : Tailed h.files p dir mode) {action : FixtureAction}
    (htakes : action.takesDirectory = true) :
    Workspace.perform h p action = ⟨action.actAt h.files dir, none⟩ := by
  cases action with
  | mkdir mode' =>
      simp only [Workspace.perform, ht.mkdirAll hh, Attempt.andThen]
      cases mode' with
      | none => rfl
      | some mode' => rw [ht.setMode mode', FixtureAction.actAt]
  | chmod mode' => rw [Workspace.perform, ht.setMode mode', FixtureAction.actAt]
  | create _ _ | symlink _ | write _ | append _ | remove => cases htakes

/-! ## Fixtures -/

namespace Workspace

theorem apply_of_confine_error {fixture : Fixture} {fault : FixtureFault}
    (hf : Path.isContained fixture.path = true)
    (hc : ws.confine h fixture.action (ws.resolve fixture.path) = .error fault) :
    ws.apply h fixture = (h.files, some fault) := by
  simp [apply, hf, hc]

theorem apply_of_confine_ok {fixture : Fixture} {files : FileSystem} {stopped : Option OsFault}
    (hf : Path.isContained fixture.path = true) (hlinks : fixture.action.actsOnLinks = false)
    (hc : ws.confine h fixture.action (ws.resolve fixture.path) = .ok ())
    (hp : perform h (ws.resolve fixture.path) fixture.action = ⟨files, stopped⟩) :
    ws.apply h fixture
      = (files, stopped.map (.io fixture.action.name (ws.resolve fixture.path))) := by
  have hstray : strayTarget? fixture.action = none := by
    cases haction : fixture.action with
    | symlink target => rw [haction] at hlinks; cases hlinks
    | _ => rfl
  simp [apply, hf, hc, hstray, hp]

/-- The name of the link is the one below the parent. -/
theorem NamesLink.below {f : Path} (hbase : fs.canonicalize ws.root = .ok ws.location)
    (hl : ws.NamesLink fs f) : ∃ up dots name tail, Path.parent (ws.resolve f) = some up
      ∧ Path.Below (ws.resolve f) up dots name tail ∧ name ≠ Path.dotDot
      ∧ match fs.canonicalize up with
        | .ok dir => ∃ target, fs.get? (dir ++ [name]) = some (.link target)
        | .error fault => fault.isNotFound = false := by
  obtain ⟨hf, up, name, hparent, hname, hthere⟩ := hl
  obtain ⟨before, after, hsteps, hcomp, hidle⟩ := Path.fileName_steps hname
  obtain ⟨-, hdots⟩ := Path.component?_eq_name hcomp
  have hcomp : Path.component? name ≠ none := by simp [hcomp]
  have hall : Path.steps (ws.resolve f) = (Path.solid ws.root ++ before) ++ name :: after := by
    rw [steps_resolve hbase hf, hsteps, List.append_assoc]
  obtain ⟨up', dots, name', tail, hparent', hb⟩ := Path.below_parent (p := ws.resolve f)
    ⟨name, by rw [hall]; simp, hcomp⟩
  obtain rfl := Option.some.inj (hparent.symm.trans hparent')
  obtain ⟨-, rfl, -⟩ := last_component_unique (hb.along.symm.trans hall) hb.component hcomp hb.idle
    hidle
  exact ⟨up, dots, name', tail, hparent, hb, hdots, hthere⟩

/-- What confinement has seen of a parent that is not missing. -/
theorem inside_of_confine {up : Path} {action : FixtureAction}
    (hparent : Path.parent p = some up) (hok : ws.confine h action p = .ok ())
    (hthere : ∀ fault, h.files.canonicalize up = .error fault → fault.isNotFound = false) :
    ∃ dir, h.files.canonicalize up = .ok dir ∧ ws.location <+: dir := by
  unfold confine at hok
  rw [hparent, confineAncestor] at hok
  cases hcanon : h.files.canonicalize up with
  | ok dir =>
      refine ⟨dir, rfl, Classical.not_not.mp fun hout => ?_⟩
      simp [hcanon, hout, bind, Except.bind] at hok
  | error fault => simp [hcanon, hthere fault hcanon, bind, Except.bind] at hok

/-- A path that confinement cannot look up is let through only where
something is missing. -/
theorem missing_of_confine (htrue : h.Truthful) {action : FixtureAction} {fault : OsFault}
    (hlinks : action.actsOnLinks = false) (hfind : h.files.find false p = .error fault)
    (hok : ws.confine h action p = .ok ()) : fault.isNotFound = true := by
  have hs := Host.status_of_find_error htrue hfind
  unfold confine at hok
  cases hsearch : ws.confineAncestor h.files action.name p (p.length + 1) (Path.parent p) with
  | error fault' => simp [hsearch, bind, Except.bind] at hok
  | ok u => simpa [hsearch, hlinks, hs, bind, Except.bind] using hok

/-- Only with a tail behind its name a path to a link is let through. -/
theorem tailed_of_confine (hh : h.Faithful) {up : Path} {dots tail : List Bytes} {name : Bytes}
    {dir : Location} {target : Path} {action : FixtureAction} (hb : Path.Below p up dots name tail)
    (hdots : name ≠ Path.dotDot) (hcanon : h.files.canonicalize up = .ok dir)
    (hlink : h.files.get? (dir ++ [name]) = some (.link target))
    (hlinks : action.actsOnLinks = false) (hok : ws.confine h action p = .ok ()) : tail ≠ [] := by
  rintro rfl
  rcases find_link hh.tree hb hdots hcanon hlink with hfind | ⟨fault, hfind, hnot⟩
  · exact not_link_of_confine hh.truthful hok hlinks _ _ hfind
  · have hmissing := missing_of_confine hh.truthful hlinks hfind hok
    rw [hnot] at hmissing
    cases hmissing

variable {fixture : Fixture}

/-- A fixture that slips through a link is done, on the directory that the
link leads to. -/
theorem Slips.apply {d : Location} (hh : h.Faithful)
    (hbase : h.files.canonicalize ws.root = .ok ws.location)
    (hlinks : fixture.action.actsOnLinks = false) (hl : ws.NamesLink h.files fixture.path)
    (hs : ws.Slips h.files fixture d) :
    ws.apply h fixture = (fixture.action.actAt h.files d, none) := by
  obtain ⟨htakes, ⟨up', dir, hparent', hcanon, hin⟩, mode, hfind⟩ := hs
  obtain ⟨up, dots, name, tail, hparent, hb, hdots, hthere⟩ := hl.below hbase
  obtain rfl := Option.some.inj (hparent.symm.trans hparent')
  rw [hcanon] at hthere
  obtain ⟨target, hlink⟩ := hthere
  have htail : tail ≠ [] := by
    rintro rfl
    rcases find_link hh.tree hb hdots hcanon hlink with hfound | ⟨fault, hfound, -⟩
    · rw [hfind] at hfound
      cases hfound
    · rw [hfind] at hfound
      cases hfound
  have ht : Tailed h.files (ws.resolve fixture.path) d mode := .intro hparent hb htail hcanon hfind
  exact apply_of_confine_ok hl.contained hlinks (ht.confine hh hparent hcanon hin _)
    (ht.perform_done hh htakes)

theorem apply_fails_at_link (hh : h.Faithful)
    (hbase : h.files.canonicalize ws.root = .ok ws.location)
    (hlinks : fixture.action.actsOnLinks = false) (hl : ws.NamesLink h.files fixture.path)
    (hno : ∀ d, ¬ ws.Slips h.files fixture d) :
    ∃ fault, ws.apply h fixture = (h.files, some fault) := by
  obtain ⟨up, dots, name, tail, hparent, hb, hdots, hthere⟩ := hl.below hbase
  cases hok : ws.confine h fixture.action (ws.resolve fixture.path) with
  | error fault => exact ⟨fault, apply_of_confine_error hl.contained hok⟩
  | ok u =>
      obtain ⟨dir, hcanon, hin⟩ := inside_of_confine hparent hok fun fault hfault => by
        simpa [hfault] using hthere
      rw [hcanon] at hthere
      obtain ⟨target, hlink⟩ := hthere
      have htail := tailed_of_confine hh hb hdots hcanon hlink hlinks hok
      obtain ⟨fault, hp⟩ : ∃ fault,
          perform h (ws.resolve fixture.path) fixture.action = ⟨h.files, some fault⟩ := by
        cases hfind : h.files.find false (ws.resolve fixture.path) with
        | error fault => exact perform_of_nowhere hparent hb hcanon hlink hh htail hfind hlinks
        | ok found =>
            obtain ⟨d, node⟩ := found
            obtain ⟨-, hleads, hnode⟩ := find_eq_ok.mp hfind
            obtain ⟨mode, hdir⟩ := directory_of_tailed hb htail hleads
            obtain rfl := Option.some.inj (hnode.symm.trans hdir)
            have ht : Tailed h.files (ws.resolve fixture.path) d mode :=
              .intro hparent hb htail hcanon hfind
            refine ht.perform_fails hlinks ?_
            rw [← Bool.not_eq_true]
            exact fun htakes => hno d ⟨htakes, ⟨up, dir, hparent, hcanon, hin⟩, mode, hfind⟩
      exact ⟨_, apply_of_confine_ok hl.contained hlinks hok hp⟩

/-- **Links.** Where the last name of a path is that of a link, a fixture
that is not about links ends in a fault and leaves all files as they were,
exactly when it does not slip through the link. If it does, its action
works on the directory that the link leads to, and no fault is reported. -/
theorem apply_at_link (hh : h.Faithful) (hbase : h.files.canonicalize ws.root = .ok ws.location)
    (hlinks : fixture.action.actsOnLinks = false) (hl : ws.NamesLink h.files fixture.path) :
    ((∃ fault, ws.apply h fixture = (h.files, some fault))
        ↔ ∀ d, ¬ ws.Slips h.files fixture d)
      ∧ ∀ d, ws.Slips h.files fixture d →
          ws.apply h fixture = (fixture.action.actAt h.files d, none) := by
  have hdone : ∀ d, ws.Slips h.files fixture d →
      ws.apply h fixture = (fixture.action.actAt h.files d, none) :=
    fun d hs => hs.apply hh hbase hlinks hl
  refine ⟨⟨?_, apply_fails_at_link hh hbase hlinks hl⟩, hdone⟩
  rintro ⟨fault, hfails⟩ d hs
  rw [hdone d hs] at hfails
  obtain ⟨-, hfault⟩ := Prod.mk.inj hfails
  cases hfault

namespace LinkedIn

/-- A workspace with a directory and a link to it. -/
def host : Host where
  files := ⟨[([], .directory ⟨0o755⟩), ([Path.ofText "w"], .directory ⟨0o755⟩),
    ([Path.ofText "w", Path.ofText "l"], .link (Path.ofText "d")),
    ([Path.ofText "w", Path.ofText "d"], .directory ⟨0o755⟩)], []⟩
  overlay _ := none
  base := ⟨0, 0, 0, ⟨0, 0⟩, ⟨0, 0⟩, ⟨0, 0⟩⟩
  names := ⟨fun _ _ _ => .nothing⟩

def workspace : Workspace := ⟨Path.ofText "/w", [Path.ofText "w"]⟩

/-- New permissions, asked for with a separator behind the link. -/
def chmod : Fixture := ⟨Path.ofText "l/", .chmod ⟨0o700⟩⟩

/-- A file, asked for with a dot behind the link. -/
def create : Fixture := ⟨Path.ofText "./l//.", .create [] none⟩

theorem faithful : host.Faithful :=
  Host.faithful_of_nodes rfl (by decide +kernel) (by decide +kernel)

theorem founded : host.files.canonicalize workspace.root = .ok workspace.location := by
  cbv

/-- However the path of the link is written, it names the link. -/
theorem namesLink {f up : Path} (hf : Path.isContained f = true)
    (hname : Path.fileName f = some (Path.ofText "l"))
    (hparent : Path.parent (workspace.resolve f) = some up)
    (hup : host.files.canonicalize up = .ok [Path.ofText "w"]) :
    workspace.NamesLink host.files f := by
  refine ⟨hf, up, _, hparent, hname, ?_⟩
  rw [hup]
  exact ⟨Path.ofText "d", by cbv⟩

end LinkedIn

/-- A file is not created at a link with a dot behind it, and the fixture
says so. -/
theorem apply_at_link_create :
    LinkedIn.host.Faithful
      ∧ LinkedIn.host.files.canonicalize LinkedIn.workspace.root = .ok LinkedIn.workspace.location
      ∧ LinkedIn.create.action.actsOnLinks = false
      ∧ LinkedIn.workspace.NamesLink LinkedIn.host.files LinkedIn.create.path
      ∧ ∃ fault, LinkedIn.workspace.apply LinkedIn.host LinkedIn.create
          = (LinkedIn.host.files, some fault) := by
  have hl : LinkedIn.workspace.NamesLink LinkedIn.host.files LinkedIn.create.path :=
    LinkedIn.namesLink (by decide +kernel) (by cbv) (by cbv) (by cbv)
  refine ⟨LinkedIn.faithful, LinkedIn.founded, rfl, hl, ?_⟩
  refine (apply_at_link LinkedIn.faithful LinkedIn.founded rfl hl).1.mpr fun d hs => ?_
  cases hs.takes

/-- The permissions of the directory behind a link are changed, and no
fault is reported. -/
theorem apply_through_link :
    LinkedIn.host.Faithful
      ∧ LinkedIn.host.files.canonicalize LinkedIn.workspace.root = .ok LinkedIn.workspace.location
      ∧ LinkedIn.chmod.action.actsOnLinks = false
      ∧ LinkedIn.workspace.NamesLink LinkedIn.host.files LinkedIn.chmod.path
      ∧ (LinkedIn.workspace.apply LinkedIn.host LinkedIn.chmod).2 = none
      ∧ LinkedIn.host.files.get? [Path.ofText "w", Path.ofText "d"] = some (.directory ⟨0o755⟩)
      ∧ (LinkedIn.workspace.apply LinkedIn.host LinkedIn.chmod).1.get?
          [Path.ofText "w", Path.ofText "d"] = some (.directory ⟨0o700⟩) :=
  ⟨LinkedIn.faithful, LinkedIn.founded, rfl,
    LinkedIn.namesLink (by decide +kernel) (by cbv) (by cbv) (by cbv), by cbv, by cbv, by cbv⟩

end Workspace

end Conformance
