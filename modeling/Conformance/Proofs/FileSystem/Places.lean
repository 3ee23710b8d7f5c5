import Conformance.Proofs.FileSystem.Leads
import Conformance.Proofs.Path.Parent

/-!
# Paths and the places they name

What `find`, `canonicalize` and `locatePlace` answer, in terms of walks.
All of them walk along the steps of a path, so for a name below a parent
they pass the place where the parent leads (`leadsTo_below`): the place a
path names lies in the directory that its lexical parent leads to
(`locatePlace_below`), and without a tail behind the name a path leads to
that place itself unless its last link is followed (`leadsTo_untailed`).
-/

namespace Conformance.FileSystem

/-- A path leads to a location. -/
def LeadsTo (fs : FileSystem) (follow : Bool) (p : Path) (l : Location) : Prop :=
  ∃ m, Leads fs follow maxLinks (fs.origin p) (Path.steps p) m l

variable {fs fs' : FileSystem} {follow : Bool} {p up : Path} {l l' : Location} {node : Node}

theorem LeadsTo.unique (h : fs.LeadsTo follow p l) (h' : fs.LeadsTo follow p l') : l' = l := by
  obtain ⟨m, h⟩ := h
  obtain ⟨m', h'⟩ := h'
  exact h.unique h'

theorem LeadsTo.mono (hgrow : Grows fs fs') (h : fs.LeadsTo follow p l) :
    fs'.LeadsTo follow p l := by
  obtain ⟨m, h⟩ := h
  have horigin : fs'.origin p = fs.origin p := by simp [origin, hgrow.start]
  exact ⟨m, by rw [horigin]; exact h.mono hgrow⟩

/-! ## What the look-ups answer -/

theorem admissible_eq_ok : admissible p = .ok () ↔ 0 ∉ p ∧ p ≠ [] ∧ p.length ≤ maxPath := by
  unfold admissible
  split
  · rename_i h
    simp only [reduceCtorEq, false_iff, not_and]
    exact fun hnul => absurd (List.contains_iff_mem.mp h) hnul
  · rename_i hnul
    have hnul' : 0 ∉ p := fun hmem => hnul (List.contains_iff_mem.mpr hmem)
    split
    · rename_i hnil
      simp [hnil]
    · rename_i hnil
      split
      · rename_i hlong
        simp only [reduceCtorEq, false_iff, not_and]
        exact fun _ _ => Nat.not_le.mpr hlong
      · rename_i hshort
        exact ⟨fun _ => ⟨hnul', hnil, Nat.not_lt.mp hshort⟩, fun _ => rfl⟩

/-- What stands against a path itself is not that something is missing. -/
theorem admissible_error {fault : OsFault} (h : admissible p = .error fault) (hne : p ≠ []) :
    fault.isNotFound = false := by
  rw [admissible, if_neg hne] at h
  split at h
  · cases h
    rfl
  · split at h
    · cases h
      rfl
    · cases h

theorem ofErrno_eq_ok {α : Type} {e : Except Errno α} {a : α} :
    ofErrno e = .ok a ↔ e = .ok a := by
  cases e <;> simp [ofErrno]

theorem locate_eq_ok :
    fs.locate follow p = .ok l ↔ admissible p = .ok () ∧ fs.LeadsTo follow p l := by
  unfold locate LeadsTo
  rw [← walk_eq_ok, ← ofErrno_eq_ok]
  cases admissible p with
  | error fault => simp [bind, Except.bind]
  | ok u => simp [bind, Except.bind]

theorem find_eq_ok :
    fs.find follow p = .ok (l, node)
      ↔ admissible p = .ok () ∧ fs.LeadsTo follow p l ∧ fs.get? l = some node := by
  rw [← and_assoc, ← locate_eq_ok]
  unfold find
  cases hloc : fs.locate follow p with
  | error fault => simp [bind, Except.bind]
  | ok loc =>
      simp only [bind, Except.bind, Except.ok.injEq]
      cases hnode : fs.get? loc with
      | none =>
          simp only [reduceCtorEq, false_iff, not_and]
          rintro rfl hsome
          rw [hnode] at hsome
          cases hsome
      | some n =>
          simp only [Except.ok.injEq, Prod.mk.injEq]
          constructor
          · rintro ⟨rfl, rfl⟩
            exact ⟨rfl, hnode⟩
          · rintro ⟨rfl, hsome⟩
            exact ⟨rfl, Option.some.inj (hnode.symm.trans hsome)⟩

theorem canonicalize_eq_ok :
    fs.canonicalize p = .ok l
      ↔ 0 ∉ p ∧ p ≠ [] ∧ fs.LeadsTo true p l ∧ (fs.get? l).isSome = true := by
  unfold canonicalize LeadsTo
  rw [← walk_eq_ok, ← ofErrno_eq_ok]
  by_cases hnul : 0 ∈ p
  · simp [hnul]
  · by_cases hnil : p = []
    · simp [hnil]
    · have hc : ¬ p.contains 0 = true := fun h => hnul (List.contains_iff_mem.mp h)
      rw [if_neg hc, if_neg hnil]
      cases hw : ofErrno (fs.walk true maxLinks (fs.origin p) (Path.steps p)) with
      | error fault => simp [bind, Except.bind]
      | ok loc =>
          simp only [bind, Except.bind, Except.ok.injEq]
          cases hnode : fs.get? loc with
          | none =>
              simp only [reduceCtorEq, false_iff, not_and]
              rintro - - rfl
              simp [hnode]
          | some n =>
              simp only [Except.ok.injEq]
              constructor
              · rintro rfl
                exact ⟨hnul, hnil, rfl, by rw [hnode]; rfl⟩
              · exact fun h => h.2.2.1

/-- What is found is what the canonical location of the path holds. -/
theorem canonicalize_of_find (h : fs.find true p = .ok (l, node)) :
    fs.canonicalize p = .ok l := by
  obtain ⟨hadm, hleads, hnode⟩ := find_eq_ok.mp h
  obtain ⟨hnul, hnil, -⟩ := admissible_eq_ok.mp hadm
  exact canonicalize_eq_ok.mpr ⟨hnul, hnil, hleads, by rw [hnode]; rfl⟩

theorem canonicalize_mono (hgrow : Grows fs fs') (h : fs.canonicalize p = .ok l) :
    fs'.canonicalize p = .ok l := by
  obtain ⟨hnul, hnil, hleads, hl⟩ := canonicalize_eq_ok.mp h
  obtain ⟨n, hn⟩ := Option.isSome_iff_exists.mp hl
  obtain ⟨n', hn', -⟩ := hgrow.node hn
  exact canonicalize_eq_ok.mpr ⟨hnul, hnil, hleads.mono hgrow, by rw [hn']; rfl⟩

/-- Following the last link or not makes a difference at a link only. -/
theorem find_follow (h : fs.find false p = .ok (l, node)) (hlink : ∀ target, node ≠ .link target) :
    fs.find true p = .ok (l, node) := by
  obtain ⟨hadm, ⟨m, hleads⟩, hnode⟩ := find_eq_ok.mp h
  refine find_eq_ok.mpr ⟨hadm, ⟨m, hleads.follow_of_ne_link fun target htarget => ?_⟩, hnode⟩
  rw [hnode] at htarget
  exact hlink target (Option.some.inj htarget)

theorem find_of_follow (h : fs.find true p = .ok (l, node)) :
    fs.find false p = .ok (l, node)
      ∨ ∃ l' target, fs.find false p = .ok (l', .link target) := by
  obtain ⟨hadm, ⟨m, hleads⟩, hnode⟩ := find_eq_ok.mp h
  rcases hleads.of_follow with hsame | ⟨m', l', target, hleads', hlink⟩
  · exact .inl (find_eq_ok.mpr ⟨hadm, ⟨m, hsame⟩, hnode⟩)
  · exact .inr ⟨l', target, find_eq_ok.mpr ⟨hadm, ⟨m', hleads'⟩, hlink⟩⟩

/-! ## Places -/

/-- The empty step that stands for a separator behind a name. -/
def slashAfter (slash : Bool) : List Bytes := if slash then [[]] else []

theorem mem_slashAfter {slash : Bool} {s : Bytes} (h : s ∈ slashAfter slash) : s = [] := by
  unfold slashAfter at h
  split at h
  · exact List.mem_singleton.mp h
  · cases h

theorem splitLast_eq {steps before : List Bytes} {name : Bytes} {slash : Bool}
    (h : splitLast steps = (before, name, slash)) :
    (steps = [] ∧ before = [] ∧ name = []) ∨ steps = before ++ name :: slashAfter slash := by
  unfold splitLast at h
  split at h
  · rename_i hnil
    cases h
    exact .inl ⟨List.reverse_eq_nil_iff.mp hnil, rfl, rfl⟩
  · rename_i n b hrev
    cases h
    rw [List.reverse_eq_iff] at hrev
    exact .inr (by rw [hrev]; simp [slashAfter])
  · rename_i n b _ hrev
    cases h
    rw [List.reverse_eq_iff] at hrev
    exact .inr (by rw [hrev]; simp [slashAfter])

theorem Place.component?_ne_none {place : Place} (hnamed : place.isNamed = true) :
    Path.component? place.name ≠ none := by
  simp only [Place.isNamed, Bool.and_eq_true, decide_eq_true_eq] at hnamed
  exact fun hnone => (Path.component?_eq_none.mp hnone).elim hnamed.1.1 hnamed.1.2

/-- The place of a path: its directory is there, may be searched, and is
where the steps before the last name lead. -/
theorem locatePlace_ok {place : Place} (h : fs.locatePlace p = .ok place) :
    admissible p = .ok ()
      ∧ (∃ before m, splitLast (Path.steps p) = (before, place.name, place.slash)
          ∧ Leads fs true maxLinks (fs.origin p) before m place.dir)
      ∧ ∃ mode, fs.get? place.dir = some (.directory mode) ∧ mode.has 0o100 = true := by
  unfold locatePlace at h
  cases hadm : admissible p with
  | error fault => simp [hadm, bind, Except.bind] at h
  | ok u =>
      rcases hsplit : splitLast (Path.steps p) with ⟨before, name, slash⟩
      simp only [hadm, hsplit, bind, Except.bind] at h
      cases hw : ofErrno (fs.walk true maxLinks (fs.origin p) before) with
      | error fault => simp [hw] at h
      | ok dir =>
          obtain ⟨m, hleads⟩ := leads_of_walk (ofErrno_eq_ok.mp hw)
          simp only [hw] at h
          cases hnode : fs.get? dir with
          | none => simp [hnode] at h
          | some node =>
              simp only [hnode] at h
              split at h
              · cases h
              · rename_i hdir
                obtain ⟨mode, rfl⟩ := isDirectory_iff.mp (by simpa using hdir)
                split at h
                · cases h
                · rename_i hsearch
                  cases h
                  exact ⟨rfl, ⟨before, m, rfl, hleads⟩, mode, hnode, by
                    simpa [Node.searchable, Node.permissions] using hsearch⟩

/-- A place stays where it is in files that have grown. -/
theorem locatePlace_mono {place : Place} (hgrow : Grows fs fs')
    (h : fs.locatePlace p = .ok place) : fs'.locatePlace p = .ok place := by
  obtain ⟨hadm, ⟨before, m, hsplit, hleads⟩, mode, hdir, hmode⟩ := locatePlace_ok h
  have horigin : fs'.origin p = fs.origin p := by simp [origin, hgrow.start]
  have hwalk := (hleads.mono hgrow).walk
  unfold locatePlace
  simp [hadm, hsplit, horigin, hwalk, hgrow.directory hdir, hmode, ofErrno, bind, Except.bind,
    Node.isDirectory, Node.searchable, Node.permissions]

/-- A path that leads somewhere has a place, or one that is out of bounds
for another reason than that something is missing. -/
theorem locatePlace_error {fault : OsFault} (h : fs.locatePlace p = .error fault)
    (hcanon : fs.canonicalize p = .ok l) : fault.isNotFound = false := by
  obtain ⟨-, hnil, ⟨k, hleads⟩, hl⟩ := canonicalize_eq_ok.mp hcanon
  unfold locatePlace at h
  cases hadm : admissible p with
  | error e =>
      simp only [hadm, bind, Except.bind, Except.error.injEq] at h
      exact h ▸ admissible_error hadm hnil
  | ok u =>
      rcases hsplit : splitLast (Path.steps p) with ⟨before, name, slash⟩
      simp only [hadm, hsplit, bind, Except.bind] at h
      -- The steps before the last name lead to something that is there.
      obtain ⟨m, dir, hbefore, hdir⟩ :
          ∃ m dir, Leads fs true maxLinks (fs.origin p) before m dir
            ∧ (fs.get? dir).isSome = true := by
        rcases splitLast_eq hsplit with ⟨hsteps, rfl, -⟩ | hsteps
        · rw [hsteps] at hleads
          cases hleads
          exact ⟨_, _, .done, hl⟩
        · rw [hsteps] at hleads
          obtain ⟨m, dir, hbefore, hrest⟩ := hleads.split (by simp)
          obtain ⟨mode, hdir⟩ := hrest.directory (by simp)
          exact ⟨m, dir, hbefore, by rw [hdir]; rfl⟩
      obtain ⟨node, hnode⟩ := Option.isSome_iff_exists.mp hdir
      simp only [hbefore.walk, ofErrno, hnode] at h
      split at h
      · cases h; rfl
      · split at h
        · cases h; rfl
        · cases h

/-- A path leads to its place when something is there that is no link,
also in files that have grown since. -/
theorem leadsTo_place {place : Place} (h : fs.locatePlace p = .ok place)
    (hnamed : place.isNamed = true) (hshort : place.name.length ≤ maxName) (hgrow : Grows fs fs')
    (hnode : fs'.get? place.location = some node) (hlink : ∀ target, node ≠ .link target)
    (hslash : place.slash = true → node.isDirectory = true) :
    fs'.LeadsTo follow p place.location := by
  obtain ⟨hadm, ⟨before, m, hsplit, hleads⟩, mode, hdir, hmode⟩ := locatePlace_ok h
  simp only [Place.isNamed, Bool.and_eq_true, decide_eq_true_eq] at hnamed
  obtain ⟨⟨hnil, hdot⟩, hdots⟩ := hnamed
  have hsteps : Path.steps p = before ++ place.name :: slashAfter place.slash := by
    rcases splitLast_eq hsplit with ⟨-, -, hname⟩ | hsteps
    · exact absurd hname hnil
    · exact hsteps
  have hlook : Looks fs' place.dir place.name :=
    ⟨⟨mode, hgrow.directory hdir, hmode⟩, hnil, hdot, hdots, hshort⟩
  have hend : Leads fs' follow m place.location (slashAfter place.slash) m place.location := by
    cases hs : place.slash with
    | false => exact .done
    | true =>
        obtain ⟨mode', rfl⟩ := isDirectory_iff.mp (hslash hs)
        exact .stay hnode .done
  have horigin : fs'.origin p = fs.origin p := by simp [origin, hgrow.start]
  refine ⟨m, ?_⟩
  rw [hsteps, horigin]
  exact (hleads.mono hgrow).append (.down hlook hnode hlink hend) (.inl (by simp))

/-! ## Below a parent -/

section

variable {dots tail : List Bytes} {name : Bytes}

theorem idle_of_dots {dots : List Bytes} (h : ∀ s ∈ dots, s = Path.dot) :
    ∀ s ∈ dots, s = [] ∨ s = Path.dot := fun s hs => .inr (h s hs)

/-- Separators and dots at the end of a walk can be left out. -/
theorem Leads.without_idle {n m : Nat} {loc : Location} {a b : List Bytes}
    (h : Leads fs follow n loc (a ++ b) m l) (hb : b ≠ [] ∨ follow = true)
    (hidle : ∀ s ∈ b, s = [] ∨ s = Path.dot) : Leads fs true n loc a m l := by
  by_cases hne : b = []
  · rw [hne, List.append_nil] at h
    rcases hb with hb | rfl
    · exact absurd hne hb
    · exact h
  · obtain ⟨k, l₁, h₁, h₂⟩ := h.split hne
    obtain ⟨rfl, rfl⟩ := h₂.idle hidle
    exact h₁

/-- The parent of a path without a null byte has none either. -/
theorem nul_notMem_up (hb : Path.Below p up dots name tail) (hnul : 0 ∉ p) : 0 ∉ up := by
  have hsep : (0 : UInt8) ≠ Path.separator := by decide
  rw [Path.mem_iff_mem_solid hsep] at hnul ⊢
  rintro ⟨s, hs, h0⟩
  have hmem : s ∈ Path.steps p := by
    rw [hb.along, Path.steps_eq up]
    exact List.mem_append_left _ (List.mem_append_left _ (List.mem_append_left _ hs))
  rw [Path.steps_eq] at hmem
  rcases List.mem_append.mp hmem with hmem | hmem
  · exact hnul ⟨s, hmem, h0⟩
  · rw [Path.mem_slashStep hmem] at h0
    cases h0

theorem origin_up (hb : Path.Below p up dots name tail) : fs.origin up = fs.origin p := by
  simp [origin, hb.absolute]

/-- A path leads through the place where its parent leads. -/
theorem leadsTo_below (hb : Path.Below p up dots name tail) (hup : up ≠ []) (hnul : 0 ∉ p)
    (h : fs.LeadsTo follow p l) :
    ∃ dir m k, fs.canonicalize up = .ok dir ∧ Leads fs follow m dir (name :: tail) k l := by
  obtain ⟨k, h⟩ := h
  rw [hb.along] at h
  obtain ⟨m, dir, hbefore, hrest⟩ := h.split (by simp)
  obtain ⟨mode, hdir⟩ := hrest.directory (by simp)
  refine ⟨dir, m, k, canonicalize_eq_ok.mpr ⟨nul_notMem_up hb hnul, hup, ⟨m, ?_⟩, ?_⟩, hrest⟩
  · rw [origin_up hb]
    exact hbefore.without_idle (.inr rfl) (idle_of_dots hb.only_dots)
  · rw [hdir]
    rfl

/-- Without a tail, a path whose last link is not followed leads to its
name in the directory of its parent. -/
theorem leadsTo_untailed (hb : Path.Below p up dots name []) (hup : up ≠ []) (hnul : 0 ∉ p)
    (hdots : name ≠ Path.dotDot) (h : fs.LeadsTo false p l) :
    ∃ dir, fs.canonicalize up = .ok dir ∧ l = dir ++ [name] := by
  obtain ⟨dir, m, k, hcanon, hrest⟩ := leadsTo_below hb hup hnul h
  obtain ⟨hnil, hdot⟩ := hb.name_ne
  obtain ⟨hl, -⟩ := hrest.last hnil hdot hdots
  exact ⟨dir, hcanon, hl⟩

/-- A walk over dots to a link ends at the link, or else it is stopped,
and not because something is missing. -/
theorem walk_to_link {dir : Location} {mode : Permissions} {target : Path} {n : Nat}
    (hdir : fs.get? dir = some (.directory mode))
    (hlink : fs.get? (dir ++ [name]) = some (.link target)) (hnil : name ≠ [])
    (hdot : name ≠ Path.dot) (hdots : name ≠ Path.dotDot) (honly : ∀ s ∈ dots, s = Path.dot) :
    fs.walk false n dir (dots ++ [name]) = .ok (dir ++ [name])
      ∨ ∃ e, fs.walk false n dir (dots ++ [name]) = .error e ∧ e ≠ .noEntry := by
  by_cases hsearch : mode.has 0o100 = true
  · induction dots with
    | nil =>
        by_cases hlong : maxName < name.length
        · refine .inr ⟨.nameTooLong, ?_, by decide⟩
          rw [List.nil_append, walk]
          simp [hdir, Node.isDirectory, Node.searchable, Node.permissions, hsearch, hnil, hdot,
            hdots, hlong]
        · have hlook : Looks fs dir name :=
            ⟨⟨mode, hdir, hsearch⟩, hnil, hdot, hdots, Nat.le_of_not_lt hlong⟩
          exact .inl (Leads.atLink (n := n) hlook hlink).walk
    | cons s r ih =>
        obtain ⟨rfl, hrest⟩ := List.forall_mem_cons.mp honly
        have hstep : fs.walk false n dir (Path.dot :: r ++ [name])
            = fs.walk false n dir (r ++ [name]) :=
          (Leads.here (n := n) hdir hsearch .done).walk_append (b := r ++ [name]) (by simp)
        rw [hstep]
        exact ih hrest
  · -- The first step is no empty one, so the directory is searched.
    refine .inr ⟨.accessDenied, ?_, by decide⟩
    cases dots with
    | nil =>
        rw [List.nil_append, walk]
        simp [hdir, Node.isDirectory, Node.searchable, Node.permissions, hsearch, hnil]
    | cons s r =>
        obtain ⟨rfl, -⟩ := List.forall_mem_cons.mp honly
        rw [List.cons_append, walk]
        simp [hdir, Node.isDirectory, Node.searchable, Node.permissions, hsearch, Path.dot]

/-- Without a tail, a path to a link leads to that link, or the link is out
of reach for another reason than that something is missing. -/
theorem find_link {dir : Location} {target : Path} (htree : fs.IsTree)
    (hb : Path.Below p up dots name []) (hdots : name ≠ Path.dotDot)
    (hcanon : fs.canonicalize up = .ok dir)
    (hlink : fs.get? (dir ++ [name]) = some (.link target)) :
    fs.find false p = .ok (dir ++ [name], .link target)
      ∨ ∃ fault, fs.find false p = .error fault ∧ fault.isNotFound = false := by
  obtain ⟨-, -, ⟨m, hup⟩, -⟩ := canonicalize_eq_ok.mp hcanon
  obtain ⟨hnil, hdot⟩ := hb.name_ne
  obtain ⟨mode, hdir⟩ := htree hlink
  have hwalk : fs.walk false maxLinks (fs.origin p) (Path.steps p)
      = fs.walk false m dir (dots ++ [name]) := by
    rw [hb.along, List.append_assoc, ← origin_up hb]
    exact hup.walk_append (by simp)
  unfold find locate
  cases hadm : admissible p with
  | error fault => exact .inr ⟨fault, rfl, admissible_error hadm hb.ne_nil⟩
  | ok u =>
      rcases walk_to_link (n := m) hdir hlink hnil hdot hdots hb.only_dots with hend | ⟨e, hend, he⟩
      · left
        simp [hwalk, hend, hlink, ofErrno, bind, Except.bind]
      · right
        refine ⟨.system e, by simp [hwalk, hend, ofErrno, bind, Except.bind], ?_⟩
        simpa [OsFault.isNotFound] using he

/-- With a tail, a path leads to a directory. -/
theorem directory_of_tailed (hb : Path.Below p up dots name tail) (htail : tail ≠ [])
    (h : fs.LeadsTo follow p l) : ∃ mode, fs.get? l = some (.directory mode) := by
  obtain ⟨k, h⟩ := h
  have hsteps : Path.steps p = (Path.steps up ++ dots ++ [name]) ++ tail := by
    rw [hb.along]
    simp
  rw [hsteps] at h
  obtain ⟨m, l₁, -, hrest⟩ := h.split htail
  obtain ⟨mode, hdir⟩ := hrest.directory htail
  obtain ⟨rfl, -⟩ := hrest.idle fun s hs => Path.component?_eq_none.mp (hb.idle s hs)
  exact ⟨mode, hdir⟩

/-- A list has one last component. -/
theorem last_component_unique {a a' b b' : List Bytes} {x x' : Bytes}
    (h : a ++ x :: b = a' ++ x' :: b') (hx : Path.component? x ≠ none)
    (hx' : Path.component? x' ≠ none) (hb : ∀ s ∈ b, Path.component? s = none)
    (hb' : ∀ s ∈ b', Path.component? s = none) : a = a' ∧ x = x' ∧ b = b' := by
  rcases List.append_eq_append_iff.mp h with ⟨c, rfl, hc⟩ | ⟨c, rfl, hc⟩
  · cases c with
    | nil =>
        obtain ⟨rfl, rfl⟩ := List.cons.injEq .. |>.mp hc
        exact ⟨(List.append_nil a).symm, rfl, rfl⟩
    | cons y c =>
        obtain ⟨rfl, rfl⟩ := List.cons.injEq .. |>.mp hc
        exact absurd (hb x' (by simp)) hx'
  · cases c with
    | nil =>
        obtain ⟨rfl, rfl⟩ := List.cons.injEq .. |>.mp hc
        exact ⟨List.append_nil a', rfl, rfl⟩
    | cons y c =>
        obtain ⟨rfl, rfl⟩ := List.cons.injEq .. |>.mp hc
        exact absurd (hb' x (by simp)) hx

/-- **Places.** A named place lies in the directory that the parent of
the path leads to. Its name is the last component, and nothing but a
separator stands behind it. -/
theorem locatePlace_below (hb : Path.Below p up dots name tail) (hup : up ≠ []) {place : Place}
    (h : fs.locatePlace p = .ok place) (hnamed : place.isNamed = true) :
    fs.canonicalize up = .ok place.dir ∧ place.name = name ∧ tail = slashAfter place.slash := by
  obtain ⟨hadm, ⟨before, m, hsplit, hleads⟩, mode, hdir, -⟩ := locatePlace_ok h
  obtain ⟨hnul, -⟩ := admissible_eq_ok.mp hadm
  have hcomp := Place.component?_ne_none hnamed
  have hslash : ∀ s ∈ slashAfter place.slash, Path.component? s = none := fun s hs =>
    Path.component?_eq_none.mpr (.inl (mem_slashAfter hs))
  obtain ⟨hbefore, hname, htail⟩ : Path.steps up ++ dots = before ∧ name = place.name
      ∧ tail = slashAfter place.slash := by
    rcases splitLast_eq hsplit with ⟨-, -, hname⟩ | hsteps
    · exact absurd (Path.component?_eq_none.mpr (.inl hname)) hcomp
    · rw [hb.along] at hsteps
      exact last_component_unique hsteps hb.component hcomp hb.idle hslash
  rw [← hbefore] at hleads
  refine ⟨canonicalize_eq_ok.mpr ⟨nul_notMem_up hb hnul, hup, ⟨m, ?_⟩, ?_⟩, hname.symm, htail⟩
  · rw [origin_up hb]
    exact hleads.without_idle (.inr rfl) (idle_of_dots hb.only_dots)
  · rw [hdir]
    rfl

end

end Conformance.FileSystem
