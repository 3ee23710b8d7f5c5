import Conformance.Proofs.Workspace.Allowed

/-!
# Paths without links

A path of the workspace without `..` and without links on its way leads
where its names say: `Workspace.spot` reads the location off the path.
What is found at the path is there (`find_spot`), and so is the place that
the path names (`place_spot`). The paths that are passed when directories
are made for it are on the way as well (`OnWay`), and so are the places
that they name, if these are free (`OnWay.free_place`).
-/

namespace Conformance

/-- The names among steps; the others are empty, or a dot. -/
def Path.namesOf (steps : List Bytes) : List Bytes :=
  steps.filter fun s => (Path.component? s).isSome

namespace Path

theorem namesOf_append (a b : List Bytes) : namesOf (a ++ b) = namesOf a ++ namesOf b :=
  List.filter_append ..

theorem namesOf_cons_idle {s : Bytes} (hs : component? s = none) (rest : List Bytes) :
    namesOf (s :: rest) = namesOf rest :=
  List.filter_cons_of_neg (by simp [hs])

theorem namesOf_cons_name {s : Bytes} (hs : component? s ≠ none) (rest : List Bytes) :
    namesOf (s :: rest) = s :: namesOf rest :=
  List.filter_cons_of_pos (by simpa [Option.isSome_iff_ne_none] using hs)

theorem namesOf_eq_nil {steps : List Bytes} :
    namesOf steps = [] ↔ ∀ s ∈ steps, component? s = none := by
  simp [namesOf, List.filter_eq_nil_iff]

end Path

namespace FileSystem

variable {fs fs' : FileSystem} {follow : Bool} {loc : Location} {steps : List Bytes}

theorem Looks.component?_ne_none {name : Bytes} (h : Looks fs loc name) :
    Path.component? name ≠ none := fun hnone =>
  (Path.component?_eq_none.mp hnone).elim h.ne_nil h.ne_dot

/-- No link is at a location on the way along steps, unless the steps end
with its name and the last name is not followed. -/
def Unlinked (fs : FileSystem) (follow : Bool) (loc : Location) (steps : List Bytes) : Prop :=
  ∀ l target, loc <+: l → l <+: loc ++ Path.namesOf steps → fs.get? l = some (.link target) →
    follow = false ∧ l = loc ++ Path.namesOf steps
      ∧ ∀ s, steps.getLast? = some s → Path.component? s ≠ none

/-- Where no link is new, none gets in the way. -/
theorem Unlinked.mono (h : Unlinked fs follow loc steps)
    (hlinks : ∀ l target, fs'.get? l = some (.link target) → fs.get? l = some (.link target)) :
    Unlinked fs' follow loc steps :=
  fun l target hl hsteps hlink => h l target hl hsteps (hlinks l target hlink)

theorem Unlinked.tail {s : Bytes} {loc' : Location} (h : Unlinked fs follow loc (s :: steps))
    (hloc : loc <+: loc') (hend : loc' ++ Path.namesOf steps = loc ++ Path.namesOf (s :: steps)) :
    Unlinked fs follow loc' steps := by
  intro l target hl hsteps hlink
  obtain ⟨hfollow, hl', hlast⟩ := h l target (hloc.trans hl) (hend ▸ hsteps) hlink
  refine ⟨hfollow, hl'.trans hend.symm, fun t ht => hlast t ?_⟩
  rw [List.getLast?_cons, ht]
  rfl

/-- Whatever is before more steps is no link. -/
theorem Unlinked.before {a b : List Bytes} (h : Unlinked fs follow loc (a ++ b)) (hb : b ≠ []) :
    Unlinked fs true loc a := by
  intro l target hl ha hlink
  rw [Unlinked, Path.namesOf_append, ← List.append_assoc] at h
  obtain ⟨-, rfl, hlast⟩ := h l target hl (ha.trans (List.prefix_append ..)) hlink
  -- Nothing among the steps behind is a name, and the last one is.
  have hnil : Path.namesOf b = [] := by
    have hlen := ha.length_le
    rw [List.length_append] at hlen
    exact List.length_eq_zero_iff.mp (by omega)
  obtain ⟨init, s, rfl⟩ : ∃ init s, b = init ++ [s] :=
    ⟨_, _, (List.dropLast_concat_getLast hb).symm⟩
  exact absurd (Path.namesOf_eq_nil.mp hnil s (by simp)) (hlast s (by simp))

/-- **Straight walks.** Without links on the way, steps that never go up
lead where their names say. -/
theorem Leads.straight {n m : Nat} {l : Location} (h : Leads fs follow n loc steps m l)
    (hdots : ∀ s ∈ steps, s ≠ Path.dotDot) (hclear : Unlinked fs follow loc steps) :
    l = loc ++ Path.namesOf steps := by
  induction h with
  | done => exact (List.append_nil _).symm
  | stay _ _ ih =>
      have hnames := Path.namesOf_cons_idle (Path.component?_eq_none.mpr (.inl rfl))
      rw [hnames]
      exact ih (fun s hs => hdots s (List.mem_cons_of_mem _ hs))
        (hclear.tail List.prefix_rfl (by rw [hnames]))
  | here _ _ _ ih =>
      have hnames := Path.namesOf_cons_idle (Path.component?_eq_none.mpr (.inr rfl))
      rw [hnames]
      exact ih (fun s hs => hdots s (List.mem_cons_of_mem _ hs))
        (hclear.tail List.prefix_rfl (by rw [hnames]))
  | up _ _ _ => exact absurd rfl (hdots _ List.mem_cons_self)
  | @down _ _ loc name rest _ _ _ hlook _ _ _ ih =>
      have hnames := Path.namesOf_cons_name hlook.component?_ne_none rest
      have hend : loc ++ [name] ++ Path.namesOf rest = loc ++ Path.namesOf (name :: rest) := by
        rw [hnames, List.append_assoc, List.singleton_append]
      rw [← hend]
      exact ih (fun s hs => hdots s (List.mem_cons_of_mem _ hs))
        (hclear.tail (List.prefix_append ..) hend)
  | @through follow _ loc name rest _ _ target hlook hnode hon _ _ =>
      have hnames := Path.namesOf_cons_name hlook.component?_ne_none
      exfalso
      by_cases hrest : rest = []
      · have hend := hclear _ target (List.prefix_append ..)
          (by rw [hnames, hrest]; exact List.prefix_rfl) hnode
        rcases hon with hne | htrue
        · exact hne hrest
        · rw [hend.1] at htrue
          cases htrue
      · rw [← List.singleton_append] at hclear
        have hend := hclear.before hrest _ target (List.prefix_append ..)
          (by rw [hnames]; exact List.prefix_rfl) hnode
        cases hend.1
  | atLink hlook _ =>
      rw [Path.namesOf_cons_name hlook.component?_ne_none]
      rfl

end FileSystem

open FileSystem

namespace Workspace

/-- Where the names of a path lead from the workspace. -/
def spot (ws : Workspace) (f : Path) : Location :=
  ws.location ++ Path.namesOf (Path.steps f)

/-- No link is on the way of a path of the workspace. Its last name may be
that of a link, if nothing stands behind it. -/
def Straight (ws : Workspace) (fs : FileSystem) (f : Path) : Prop :=
  Unlinked fs false ws.location (Path.steps f)

variable {fs : FileSystem} {ws : Workspace} {f : Path}

theorem find_spot {l : Location} {node : Node}
    (hbase : fs.canonicalize ws.root = .ok ws.location) (hf : Path.isContained f = true)
    (hs : ws.Straight fs f) (hfind : fs.find false (ws.resolve f) = .ok (l, node)) :
    l = ws.spot f := by
  obtain ⟨n, m, hleads⟩ := leads_resolve hbase hf (find_eq_ok.mp hfind).2.1
  exact hleads.straight (Path.isContained_spec hf).2.2 hs

end Workspace

/-! ## Places on the way -/

section

variable {fs : FileSystem} {ws : Workspace} {q : Path} {along rest : List Bytes} {follow : Bool}

/-- A path that is on the way along steps from the workspace. -/
structure OnWay (ws : Workspace) (along : List Bytes) (q : Path) (rest : List Bytes) : Prop where
  absolute : Path.isAbsolute q = Path.isAbsolute ws.root
  steps : Path.steps q ++ rest = Path.solid ws.root ++ along

theorem OnWay.up {up : Path} {dots tail : List Bytes} {name : Bytes} (hq : OnWay ws along q rest)
    (hb : Path.Below q up dots name tail) :
    OnWay ws along up (dots ++ name :: tail ++ rest) where
  absolute := hb.absolute.trans hq.absolute
  steps := by
    rw [← hq.steps, hb.along]
    simp

/-- The place that a path on the way names is on the way too, or else the
path of the workspace itself passes it. -/
theorem OnWay.place_cases {place : Place} (hq : OnWay ws along q rest)
    (hbase : fs.canonicalize ws.root = .ok ws.location)
    (hdots : ∀ s ∈ along, s ≠ Path.dotDot) (hclear : Unlinked fs follow ws.location along)
    (hplace : fs.locatePlace q = .ok place) (hnamed : place.isNamed = true) :
    (∃ before, along = before ++ place.name :: (slashAfter place.slash ++ rest)
        ∧ place.location = ws.location ++ Path.namesOf before ++ [place.name])
      ∨ (∃ c, c ++ along = slashAfter place.slash ++ rest)
        ∧ (fs.get? place.location).isSome = true := by
  obtain ⟨-, ⟨before, m, hsplit, hleads⟩, -⟩ := locatePlace_ok hplace
  simp only [Place.isNamed, Bool.and_eq_true, decide_eq_true_eq] at hnamed
  obtain ⟨⟨hnil, hdot⟩, hup⟩ := hnamed
  have horigin : fs.origin q = fs.origin ws.root := by simp [origin, hq.absolute]
  rw [horigin] at hleads
  have hsteps : Path.steps q = before ++ place.name :: slashAfter place.slash := by
    rcases splitLast_eq hsplit with ⟨-, -, hname⟩ | hsteps
    · exact absurd hname hnil
    · exact hsteps
  have halong := hq.steps
  rw [hsteps, List.append_assoc, List.cons_append] at halong
  -- The name stands behind the path of the workspace, or it is part of it.
  have hcases : (∃ c, before = Path.solid ws.root ++ c
        ∧ along = c ++ place.name :: (slashAfter place.slash ++ rest))
      ∨ ∃ c, Path.solid ws.root = before ++ place.name :: c
        ∧ c ++ along = slashAfter place.slash ++ rest := by
    rcases List.append_eq_append_iff.mp halong with ⟨c, hsolid, hrest⟩ | ⟨c, hbefore, hrest⟩
    · cases c with
      | nil => exact .inl ⟨[], by simp [hsolid], hrest.symm⟩
      | cons s c =>
          obtain ⟨rfl, htail⟩ := List.cons.injEq .. |>.mp hrest
          exact .inr ⟨c, hsolid, htail.symm⟩
    · exact .inl ⟨c, hbefore, hrest⟩
  rcases hcases with ⟨c, rfl, rfl⟩ | ⟨c, hsolid, hrest⟩
  · left
    obtain ⟨n, hdir⟩ := leads_from_root hbase hleads (.inr rfl)
    have hloc := hdir.straight (fun s hs => hdots s (List.mem_append_left _ hs))
      (hclear.before (by simp))
    exact ⟨c, rfl, by rw [Place.location, hloc]⟩
  · right
    obtain ⟨-, -, ⟨k, hroot⟩, -⟩ := canonicalize_eq_ok.mp hbase
    rw [Path.steps_eq, hsolid, List.append_assoc, List.cons_append] at hroot
    obtain ⟨n, dir, hbefore, hafter⟩ := hroot.split (by simp)
    obtain rfl := hbefore.unique hleads
    exact ⟨⟨c, hrest⟩, hafter.looked_up hnil hdot hup⟩

/-- Where a path on the way names a free place, that is on the way too. -/
theorem OnWay.free_place {place : Place} (hq : OnWay ws along q rest)
    (hbase : fs.canonicalize ws.root = .ok ws.location)
    (hdots : ∀ s ∈ along, s ≠ Path.dotDot) (hclear : Unlinked fs follow ws.location along)
    (hplace : fs.locatePlace q = .ok place) (hnamed : place.isNamed = true)
    (hfree : fs.get? place.location = none) :
    place.location <+: ws.location ++ Path.namesOf along := by
  rcases hq.place_cases hbase hdots hclear hplace hnamed with ⟨before, hsteps, hloc⟩ | ⟨-, hsome⟩
  · have hname := Path.namesOf_cons_name (Place.component?_ne_none hnamed)
    rw [hloc, hsteps, Path.namesOf_append, hname]
    exact ⟨Path.namesOf (slashAfter place.slash ++ rest), by simp⟩
  · rw [hfree] at hsome
    cases hsome

end

namespace Workspace

variable {fs : FileSystem} {ws : Workspace} {f : Path}

/-- The place that the path itself names is where its names lead. -/
theorem place_spot {place : Place} (hbase : fs.canonicalize ws.root = .ok ws.location)
    (hf : Path.isContained f = true) (hs : ws.Straight fs f)
    (hplace : fs.locatePlace (ws.resolve f) = .ok place) (hnamed : place.isNamed = true) :
    place.location = ws.spot f := by
  obtain ⟨hne, hrel, hdots⟩ := Path.isContained_spec hf
  have hway : OnWay ws (Path.steps f) (ws.resolve f) [] :=
    ⟨isAbsolute_resolve hbase hf, by rw [List.append_nil, steps_resolve hbase hf]⟩
  rcases hway.place_cases hbase hdots hs hplace hnamed with ⟨before, hsteps, hloc⟩ | ⟨⟨c, hc⟩, -⟩
  · have hidle : Path.namesOf (slashAfter place.slash ++ []) = [] :=
      Path.namesOf_eq_nil.mpr fun s hs =>
        Path.component?_eq_none.mpr (.inl (mem_slashAfter (by simpa using hs)))
    have hname := Path.namesOf_cons_name (Place.component?_ne_none hnamed)
    rw [spot, hsteps, Path.namesOf_append, hname, hidle, hloc, List.append_assoc]
  · -- The path has a step that is not empty.
    obtain ⟨s, hs⟩ := List.exists_mem_of_ne_nil _ (Path.solid_ne_nil hne hrel)
    have hmem : s ∈ slashAfter place.slash ++ [] := by
      rw [← hc, Path.steps_eq]
      exact List.mem_append_right _ (List.mem_append_left _ hs)
    exact absurd (mem_slashAfter (by simpa using hmem)) (Path.mem_solid.mp hs).2

end Workspace

end Conformance
