import Conformance.Proofs.Workspace.Confinement

/-!
# Allowed paths

A path that confinement allows is a name below an anchored path, or else
it has no name of its own and leads back to the workspace (`Allowed`).
Either way the places it names lie in the workspace (`Allowed.places`),
and so do the directories that are made for it. Where the path itself
leads is another matter: that takes what stands behind its last name
into account, which confinement does not look at.
-/

namespace Conformance

open FileSystem

/-- What confinement has shown of a path that it allows. -/
inductive Allowed (root : Location) (fs : FileSystem) (p : Path) : Prop
  | below {up dots name tail} (hparent : Path.parent p = some up)
    (hb : Path.Below p up dots name tail) (hname : name ≠ Path.dotDot)
    (hup : Anchored root fs up) : Allowed root fs p
  | back (hne : p ≠ []) (hparent : ∀ up, Path.parent p = some up →
      up = [] ∨ ∃ l, fs.canonicalize up = .ok l)
    (hplace : ∀ {fs' : FileSystem} {place}, fs'.locatePlace p = .ok place →
      place.isNamed = false)
    (hleads : ∀ {follow l}, fs.LeadsTo follow p l → l = root) : Allowed root fs p

/-- Whatever a path names lies in a directory at or below a location. -/
def PlacesIn (root : Location) (fs : FileSystem) (p : Path) : Prop :=
  ∀ place, fs.locatePlace p = .ok place → place.isNamed = true → root <+: place.dir

/-- Whatever a path leads to lies in a location. -/
def FindsIn (root : Location) (fs : FileSystem) (follow : Bool) (p : Path) : Prop :=
  ∀ l node, fs.find follow p = .ok (l, node) → root <+: l

variable {root : Location} {links : Path → Prop} {fs fs' : FileSystem} {ws : Workspace} {p : Path}

/-! ## Paths of the workspace -/

/-- What starts with the path of the workspace goes on from its
directory. -/
theorem leads_from_root {follow : Bool} {m : Nat} {l : Location} {along : List Bytes}
    (hbase : fs.canonicalize ws.root = .ok ws.location)
    (h : Leads fs follow maxLinks (fs.origin ws.root) (Path.solid ws.root ++ along) m l)
    (hon : along ≠ [] ∨ follow = true) : ∃ n, Leads fs follow n ws.location along m l := by
  obtain ⟨-, -, ⟨k, hroot⟩, -⟩ := canonicalize_eq_ok.mp hbase
  rw [Path.steps_eq] at hroot
  have hthere := hroot.without_idle (.inr rfl) fun s hs => .inl (Path.mem_slashStep hs)
  by_cases hne : along = []
  · obtain rfl := hon.resolve_left (not_not_intro hne)
    rw [hne, List.append_nil] at h
    rw [hne, hthere.unique h]
    exact ⟨m, .done⟩
  · obtain ⟨n, l₁, hbefore, hrest⟩ := h.split hne
    obtain rfl := hthere.unique hbefore
    exact ⟨n, hrest⟩

section

variable {f : Path} (hbase : fs.canonicalize ws.root = .ok ws.location)
  (hf : Path.isContained f = true)

include hbase hf

theorem steps_resolve : Path.steps (ws.resolve f) = Path.solid ws.root ++ Path.steps f := by
  obtain ⟨hne, hrel, -⟩ := Path.isContained_spec hf
  exact Path.steps_append (canonicalize_eq_ok.mp hbase).2.1 hne hrel

theorem isAbsolute_resolve : Path.isAbsolute (ws.resolve f) = Path.isAbsolute ws.root :=
  Path.isAbsolute_append (canonicalize_eq_ok.mp hbase).2.1 (Path.isContained_spec hf).2.1

/-- A path of the workspace leads through the workspace's own directory. -/
theorem leads_resolve {follow : Bool} {l : Location} (h : fs.LeadsTo follow (ws.resolve f) l) :
    ∃ n m, Leads fs follow n ws.location (Path.steps f) m l := by
  obtain ⟨hne, hrel, -⟩ := Path.isContained_spec hf
  obtain ⟨m, h⟩ := h
  have horigin : fs.origin (ws.resolve f) = fs.origin ws.root := by
    simp [origin, isAbsolute_resolve hbase hf]
  have hsteps : Path.steps f ≠ [] := by
    rw [Path.steps_eq]
    exact List.append_ne_nil_of_left_ne_nil (Path.solid_ne_nil hne hrel) _
  rw [steps_resolve hbase hf, horigin] at h
  obtain ⟨n, hrest⟩ := leads_from_root hbase h (.inl hsteps)
  exact ⟨n, m, hrest⟩

/-- A path of nothing but dots leads back to the workspace. -/
theorem leadsTo_resolve_idle (hidle : ∀ s ∈ Path.steps f, Path.component? s = none)
    {follow : Bool} {l : Location} (h : fs.LeadsTo follow (ws.resolve f) l) : l = ws.location := by
  obtain ⟨n, m, hrest⟩ := leads_resolve hbase hf h
  exact (hrest.idle fun s hs => Path.component?_eq_none.mp (hidle s hs)).1

/-- The last step of a path of nothing but dots is no name. -/
theorem place_resolve_idle (hidle : ∀ s ∈ Path.steps f, Path.component? s = none)
    {place : Place} (h : fs'.locatePlace (ws.resolve f) = .ok place) : place.isNamed = false := by
  obtain ⟨hne, hrel, -⟩ := Path.isContained_spec hf
  obtain ⟨-, ⟨before, m, hsplit, -⟩, -⟩ := locatePlace_ok h
  rw [← Bool.not_eq_true]
  intro hnamed
  have hcomp := Place.component?_ne_none hnamed
  -- The path has a dot, so the name cannot stand before all of it.
  obtain ⟨s, hs⟩ := List.exists_mem_of_ne_nil _ (Path.solid_ne_nil hne hrel)
  have hs' : s ∈ Path.steps f := by
    rw [Path.steps_eq]
    exact List.mem_append_left _ hs
  rcases splitLast_eq hsplit with ⟨-, -, hname⟩ | hsteps
  · exact hcomp (Path.component?_eq_none.mpr (.inl hname))
  · rw [steps_resolve hbase hf] at hsteps
    rcases List.append_eq_append_iff.mp hsteps with ⟨c, -, hc⟩ | ⟨c, -, hc⟩
    · exact hcomp (hidle place.name (by rw [hc]; simp))
    · have hmem : s ∈ place.name :: slashAfter place.slash := hc ▸ List.mem_append_right _ hs'
      rcases List.mem_cons.mp hmem with rfl | hslash
      · exact hcomp (hidle _ hs')
      · exact (Path.mem_solid.mp hs).2 (mem_slashAfter hslash)

/-- The parent of a path of nothing but dots, if it has one, is on the
path of the workspace. -/
theorem parent_resolve_idle (hidle : ∀ s ∈ Path.steps f, Path.component? s = none) {up : Path}
    (hup : Path.parent (ws.resolve f) = some up) :
    up = [] ∨ ∃ l, fs.canonicalize up = .ok l := by
  rcases Path.below_of_parent hup with hnil | ⟨dots, name, tail, hb⟩
  · exact .inl hnil
  · by_cases hnil : up = []
    · exact .inl hnil
    · right
      have halong := hb.along
      rw [steps_resolve hbase hf] at halong
      have habs := hb.absolute.trans (isAbsolute_resolve hbase hf)
      rcases List.append_eq_append_iff.mp halong with ⟨c, -, hc⟩ | ⟨c, hc, -⟩
      · exact absurd (hidle name (by rw [hc]; simp)) hb.component
      · have hsolid : Path.solid ws.root = Path.steps up ++ (dots ++ c) := by
          rw [hc, List.append_assoc]
        exact canonicalize_of_prefix hbase hnil habs hsolid

/-- A path of the workspace is allowed where its parent is anchored. -/
theorem allowed_resolve
    (hanch : ∀ {up dots name tail}, Path.parent (ws.resolve f) = some up →
      Path.Below (ws.resolve f) up dots name tail →
      (∃ s ∈ Path.steps f, Path.component? s ≠ none) → Anchored ws.location fs up) :
    Allowed ws.location fs (ws.resolve f) := by
  obtain ⟨hne, hrel, hdots⟩ := Path.isContained_spec hf
  rcases Path.component_or_idle (Path.steps f) with ⟨s, hs, hcs⟩ | hidle
  · obtain ⟨up, dots, name, tail, hparent, hb⟩ := Path.below_parent (p := ws.resolve f)
      ⟨s, by rw [steps_resolve hbase hf]; exact List.mem_append_right _ hs, hcs⟩
    obtain ⟨-, hmem, -⟩ := parent_on_or_below hbase hb (isAbsolute_resolve hbase hf)
      (steps_resolve hbase hf) ⟨s, hs, hcs⟩
    exact .below hparent hb (hdots name hmem) (hanch hparent hb ⟨s, hs, hcs⟩)
  · exact .back (Path.append_ne_nil hne) (fun up => parent_resolve_idle hbase hf hidle)
      (place_resolve_idle hbase hf hidle) (leadsTo_resolve_idle hbase hf hidle)

end

/-- **Confinement.** What it lets through is allowed. -/
theorem allowed_of_confine {h : Host} {f : Path} {action : FixtureAction}
    (hbase : h.files.canonicalize ws.root = .ok ws.location) (hf : Path.isContained f = true)
    (hok : ws.confine h action (ws.resolve f) = .ok ()) :
    Allowed ws.location h.files (ws.resolve f) := by
  obtain ⟨-, -, hdots⟩ := Path.isContained_spec hf
  refine allowed_resolve hbase hf fun {up dots name tail} hparent hb hcomp => ?_
  unfold Workspace.confine at hok
  cases hsearch : ws.confineAncestor h.files action.name (ws.resolve f)
      ((ws.resolve f).length + 1) (Path.parent (ws.resolve f)) with
  | error fault => simp [hsearch, bind, Except.bind] at hok
  | ok u =>
      rw [hparent] at hsearch
      refine anchored_of_confineAncestor hbase _ hb (isAbsolute_resolve hbase hf)
        (steps_resolve hbase hf) hdots hcomp ?_ hsearch
      have hlen := Path.length_steps_le (ws.resolve f)
      rw [hb.along] at hlen
      simp only [List.length_append, List.length_cons] at hlen
      omega

/-- Nor does it let a link through that is not to be acted on. -/
theorem not_link_of_confine {h : Host} (htrue : h.Truthful) {action : FixtureAction} {path : Path}
    (hok : ws.confine h action path = .ok ()) (hlinks : action.actsOnLinks = false) :
    ∀ l target, h.files.find false path ≠ .ok (l, .link target) := by
  intro l target hfind
  obtain ⟨s, hs, hmode⟩ := Host.status_of_find htrue hfind
  have hlink := Status.isLink_of_link hmode
  unfold Workspace.confine at hok
  cases hsearch : ws.confineAncestor h.files action.name path (path.length + 1)
      (Path.parent path) with
  | error fault => simp [hsearch, bind, Except.bind] at hok
  | ok u => simp [hsearch, bind, Except.bind, hlinks, hs, hlink] at hok

/-! ## What an allowed path names -/

/-- Also in files in which less is there, an allowed path names places in
the root. -/
theorem Allowed.places (hp : Allowed root fs p) (hgrow : Grows fs' fs) : PlacesIn root fs' p := by
  intro place hplace hnamed
  cases hp with
  | below hparent hb hname hup =>
      obtain ⟨hcanon, -, -⟩ := locatePlace_below hb hup.ne_nil hplace hnamed
      exact hup.inside (canonicalize_mono hgrow hcanon)
  | back _ _ hunnamed _ =>
      rw [hunnamed hplace] at hnamed
      cases hnamed

theorem makeDirectories_there {h : Host} {q : Path}
    (hq : q = [] ∨ ∃ l, h.files.canonicalize q = .ok l) (fuel : Nat) :
    (h.makeDirectories fuel q).files = h.files := by
  rcases hq with rfl | ⟨l, hl⟩
  · unfold Host.makeDirectories
    rfl
  · exact makeDirectories_of_canonicalize hl fuel

/-- The directories above an allowed path are made in the root, and the
path then names places in it. -/
theorem Allowed.ensureParent {h : Host} (htrue : h.Truthful) (htree : h.files.IsTree)
    (hp : Allowed root h.files p) :
    Edits root links h.files (Workspace.ensureParent h p).files
      ∧ ((Workspace.ensureParent h p).fault = none →
          PlacesIn root (Workspace.ensureParent h p).files p) := by
  unfold Workspace.ensureParent
  cases hp with
  | @below up dots name tail hparent hb hname hup =>
      have hmade : Made root links h.files up (h.mkdirAll up) :=
        makeDirectories_spec htrue htree hup up.length
      rw [hparent]
      refine ⟨hmade.edits, fun hnone place hplace hnamed => ?_⟩
      obtain ⟨hcanon, -, -⟩ := locatePlace_below hb hup.ne_nil hplace hnamed
      obtain ⟨l, hl, hin, -⟩ := hmade.leads hnone
      obtain rfl := Except.ok.inj (hl.symm.trans hcanon)
      exact hin
  | back _ hparent hunnamed _ =>
      refine ⟨?_, fun _ place hplace hnamed => ?_⟩
      · cases hup : Path.parent p with
        | none => exact .refl
        | some up =>
            have hfiles : (h.mkdirAll up).files = h.files :=
              makeDirectories_there (hparent up hup) _
            dsimp only
            rw [hfiles]
      · rw [hunnamed hplace] at hnamed
        cases hnamed

/-- A path that names nothing is no directory that can be made. -/
theorem makeDirectories_unnamed {h : Host} (hne : p ≠ [])
    (hparent : ∀ up, Path.parent p = some up → up = [] ∨ ∃ l, h.files.canonicalize up = .ok l)
    (hunnamed : ∀ {fs' : FileSystem} {place}, fs'.locatePlace p = .ok place →
      place.isNamed = false) (fuel : Nat) : (h.makeDirectories fuel p).files = h.files := by
  have hno : ∀ fs' : FileSystem, ∃ fault, fs'.mkdir p = .error fault := by
    intro fs'
    cases hmk : fs'.mkdir p with
    | error fault => exact ⟨fault, rfl⟩
    | ok fs'' =>
        obtain ⟨place, -, hplace, hnamed, -⟩ := mkdir_ok hmk
        rw [hunnamed hplace] at hnamed
        cases hnamed
  obtain ⟨fault, hmk⟩ := hno h.files
  unfold Host.makeDirectories
  rw [if_neg hne, hmk]
  dsimp only
  split
  · split <;> rfl
  · split
    · rfl
    · rfl
    · rename_i up fuel hup
      have hfiles := makeDirectories_there (hparent up hup) fuel
      generalize h.makeDirectories fuel up = a at hfiles ⊢
      obtain ⟨files, fault'⟩ := a
      obtain rfl : files = h.files := hfiles
      cases fault' with
      | some fault' => rfl
      | none =>
          simp only [Attempt.andThen, hmk]
          split <;> rfl

/-- Directories are made in the root for an allowed path that leads into
it, and the path then leads into it. -/
theorem Allowed.mkdirAll {h : Host} (htrue : h.Truthful) (htree : h.files.IsTree)
    (hp : Allowed root h.files p) (hfind : FindsIn root h.files true p) :
    Edits root links h.files (h.mkdirAll p).files
      ∧ ((h.mkdirAll p).fault = none → FindsIn root (h.mkdirAll p).files true p) := by
  unfold Host.mkdirAll
  cases hp with
  | below hparent hb hname hup =>
      have hmade : Made root links h.files p (h.makeDirectories p.length p) :=
        makeDirectories_step htrue htree hparent hb hname hup hfind
          (makeDirectories_spec htrue htree hup) p.length
      refine ⟨hmade.edits, fun hnone l node hl => ?_⟩
      obtain ⟨l', hl', hin, -⟩ := hmade.leads hnone
      obtain rfl := Except.ok.inj (hl'.symm.trans (canonicalize_of_find hl))
      exact hin
  | back hne hparent hunnamed _ =>
      rw [makeDirectories_unnamed hne hparent hunnamed]
      exact ⟨.refl, fun _ => hfind⟩

end Conformance
