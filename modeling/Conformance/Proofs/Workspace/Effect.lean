import Mathlib
import Conformance.Proofs.Workspace.Inside
import Conformance.Proofs.Workspace.Paving

/-!
# What a fixture does, and what it leaves alone

On a path without links, a fixture that is not stopped has done what its
action says at the spot where the names of the path lead
(`FixtureAction.Done`). Everything else is as it was, but for the
directories above the spot that were missing; of the seven actions three
make these (`FixtureAction.Frame`).

Each action is a few calls, and each call puts one node at the spot
(`Puts`) after the way to it was paved, if the action does so at all. Only
the removal takes more away than that one node.
-/

namespace Conformance

open FileSystem

/-- The permissions as a file has them, without any further bits. -/
def Permissions.twelve (mode : Permissions) : Permissions := ⟨mode.bits &&& 0o7777⟩

theorem Permissions.ofMode_mode (mode : Permissions) : ofMode mode.mode = mode.twelve := by
  unfold ofMode Permissions.mode twelve
  simp

namespace FixtureAction

/-- What an action has done at a location. -/
def Done (fs fs' : FileSystem) (l : Location) : FixtureAction → Prop
  | .create content mode => ∃ bits, fs'.get? l = some (.file bits content)
      ∧ ∀ given, mode = some given → bits = given.twelve
  | .mkdir mode => ∃ bits, fs'.get? l = some (.directory bits)
      ∧ ∀ given, mode = some given → bits = given.twelve
  | .symlink target => fs.get? l = none ∧ fs'.get? l = some (.link target)
  | .chmod given => ∃ node, fs.get? l = some node ∧ (∀ target, node ≠ .link target)
      ∧ fs'.get? l = some (node.withPermissions given.twelve)
  | .write content => ∃ bits, fs'.get? l = some (.file bits content)
  | .append content => ∃ bits old bits', fs.get? l = some (.file bits old)
      ∧ fs'.get? l = some (.file bits' (old ++ content))
  | .remove => (fs.get? l).isSome = true ∧ ∀ k, l <+: k → fs'.get? k = none

/-- Whether an action makes the directories above its path. -/
def makesParents : FixtureAction → Bool
  | .create .. | .mkdir _ | .symlink _ => true
  | _ => false

/-- What an action at a location leaves as it was: all but the location,
what is below it where that is removed, and the directories that were
missing above it. -/
def Frame (fs fs' : FileSystem) (l : Location) (action : FixtureAction) : Prop :=
  ∀ k, k ≠ l → (action = .remove → ¬ l <+: k) →
    fs'.get? k = fs.get? k
      ∨ (action.makesParents = true ∧ k <+: l ∧ fs.get? k = none
        ∧ ∃ bits, fs'.get? k = some (.directory bits))

/-- An action has done at a location what it says, and nothing else. -/
structure Performed (fs fs' : FileSystem) (l : Location) (action : FixtureAction) : Prop where
  done : action.Done fs fs' l
  frame : action.Frame fs fs' l

/-- Something is there afterwards, unless it was removed. -/
theorem Done.isSome {fs fs' : FileSystem} {l : Location} {action : FixtureAction}
    (hdone : action.Done fs fs' l) (hne : action ≠ .remove) : (fs'.get? l).isSome = true := by
  obtain ⟨node, hnode⟩ : ∃ node, fs'.get? l = some node := by
    cases action with
    | create content mode => exact ⟨_, hdone.choose_spec.1⟩
    | mkdir mode => exact ⟨_, hdone.choose_spec.1⟩
    | symlink target => exact ⟨_, hdone.2⟩
    | chmod given => exact ⟨_, hdone.choose_spec.2.2⟩
    | write content => exact ⟨_, hdone.choose_spec⟩
    | append content =>
        obtain ⟨bits, old, bits', -, hnode⟩ := hdone
        exact ⟨_, hnode⟩
    | remove => exact absurd rfl hne
  rw [hnode]
  rfl

end FixtureAction

namespace FileSystem

variable {fs fs' fs'' : FileSystem} {p : Path} {l : Location} {node node' : Node}

/-! ## Attempts that nothing stopped -/

theorem andThen_eq_ok {a : Attempt} {work : FileSystem → Attempt}
    (h : a.andThen work = ⟨fs', none⟩) : ∃ fs, a = ⟨fs, none⟩ ∧ work fs = ⟨fs', none⟩ := by
  obtain ⟨files, fault⟩ := a
  cases fault with
  | none => exact ⟨files, rfl, h⟩
  | some fault => cases h

theorem ofCall_eq_ok {e : Except OsFault FileSystem} (h : Attempt.ofCall fs e = ⟨fs', none⟩) :
    e = .ok fs' := by
  cases e with
  | ok files =>
      cases h
      rfl
  | error fault => cases h

/-! ## Calls at one location -/

/-- A location has this node now, and nothing else has changed. -/
def Puts (l : Location) (node : Node) (fs fs' : FileSystem) : Prop :=
  ∀ k, fs'.get? k = if k = l then some node else fs.get? k

theorem Puts.self (h : Puts l node fs fs') : fs'.get? l = some node := by
  rw [h l, if_pos rfl]

theorem Puts.other (h : Puts l node fs fs') {k : Location} (hk : k ≠ l) :
    fs'.get? k = fs.get? k := by
  rw [h k, if_neg hk]

theorem puts_self (h : fs.get? l = some node) : Puts l node fs fs := by
  intro k
  by_cases hk : k = l
  · rw [if_pos hk, hk, h]
  · rw [if_neg hk]

theorem Puts.trans (h : Puts l node fs fs') (h' : Puts l node' fs' fs'') :
    Puts l node' fs fs'' := by
  intro k
  by_cases hk : k = l
  · rw [if_pos hk, hk, h'.self]
  · rw [if_neg hk, h'.other hk, h.other hk]

theorem puts_add (fs : FileSystem) (l : Location) (node : Node) : Puts l node fs (fs.add l node) :=
  get?_add fs l node

theorem puts_replace (h : fs.get? l = some node) (node' : Node) :
    Puts l node' fs (fs.replace l node') := by
  intro k
  rw [get?_replace]
  by_cases hk : k = l
  · rw [if_pos hk, if_pos hk, hk, h]
    rfl
  · rw [if_neg hk, if_neg hk]

/-- What is written is at the place of the path, and the path leads
there. -/
theorem write_puts {content : Bytes}
    (hplace : ∀ place, fs.locatePlace p = .ok place → place.isNamed = true → place.location = l)
    (hw : fs.write content p = .ok fs') :
    (∃ bits, Puts l (.file bits content) fs fs')
      ∧ ∀ l' node, fs'.find true p = .ok (l', node) → l' = l := by
  obtain ⟨place, hp, hnamed, hslash, hshort, hcase⟩ := write_ok hw
  obtain rfl := hplace place hp hnamed
  obtain ⟨bits, hputs, hgrow⟩ : ∃ bits, Puts place.location (.file bits content) fs fs'
      ∧ Grows fs fs' := by
    rcases hcase with ⟨hfree, rfl⟩ | ⟨mode, old, hold, rfl⟩
    · exact ⟨newFile, puts_add fs _ _, grows_add hfree _⟩
    · exact ⟨writtenTo mode, puts_replace hold _, grows_replace_file hold⟩
  refine ⟨⟨bits, hputs⟩, fun l' node hfind => ?_⟩
  have hleads : fs'.LeadsTo true p place.location :=
    leadsTo_place hp hnamed hshort hgrow hputs.self (by simp) fun hs =>
      absurd hs (by simp [hslash])
  exact hleads.unique (find_eq_ok.mp hfind).2.1

/-- Permissions, if any are given, are set where the path leads. -/
theorem setMode_puts {mode : Option Permissions} (hnode : fs.get? l = some node)
    (hfind : ∀ l' node, fs.find true p = .ok (l', node) → l' = l)
    (hset : Workspace.setMode p mode fs = ⟨fs', none⟩) :
    Puts l (mode.elim node fun given => node.withPermissions given.twelve) fs fs' := by
  cases mode with
  | none =>
      cases hset
      exact puts_self hnode
  | some given =>
      obtain ⟨l', node', hfound, rfl⟩ := chmod_ok (ofCall_eq_ok hset)
      obtain rfl := hfind l' node' hfound
      obtain rfl := Option.some.inj (hnode.symm.trans (find_eq_ok.mp hfound).2.2)
      rw [Permissions.ofMode_mode]
      exact puts_replace hnode _

/-- In a tree nothing at all is below a location with nothing right below
it. -/
theorem none_below (htree : fs.IsTree) (hbare : ∀ name, fs.get? (l ++ [name]) = none)
    {k : Location} (hk : l <+: k) (hne : k ≠ l) : fs.get? k = none := by
  obtain ⟨rest, rfl⟩ := hk
  cases rest with
  | nil => exact absurd (List.append_nil l) hne
  | cons name rest =>
      rw [← Option.not_isSome_iff_eq_none]
      intro hthere
      cases rest with
      | nil =>
          rw [hbare name] at hthere
          cases hthere
      | cons next rest =>
          rw [← List.singleton_append, ← List.append_assoc] at hthere
          obtain ⟨mode, hdir⟩ := directory_above htree hthere
          rw [hbare name] at hdir
          cases hdir

end FileSystem

namespace Workspace

variable {h : Host} {ws : Workspace} {f : Path} {fs fs' : FileSystem}

/-! ## What the calls of an action find -/

theorem named_of_place (hbase : fs.canonicalize ws.root = .ok ws.location)
    (hf : Path.isContained f = true) {place : Place}
    (hplace : fs'.locatePlace (ws.resolve f) = .ok place) (hnamed : place.isNamed = true) :
    ∃ s ∈ Path.steps f, Path.component? s ≠ none := by
  refine (Path.component_or_idle (Path.steps f)).resolve_right fun hidle => ?_
  rw [place_resolve_idle hbase hf hidle hplace] at hnamed
  cases hnamed

/-- What changed beside the spot, where the way to it was paved first. -/
theorem frame_of_paves {action : FixtureAction} {l dir : Location} {node : Node}
    (hparents : action.makesParents = true) (hpaves : Paves dir fs fs') (hdir : dir <+: l)
    {fs'' : FileSystem} (hputs : Puts l node fs' fs'') : action.Frame fs fs'' l := by
  intro k hk _
  rw [hputs.other hk]
  rcases hpaves.node k with heq | ⟨hnone, hway, hnew⟩
  · exact .inl heq
  · exact .inr ⟨hparents, hway.trans hdir, hnone, hnew⟩

/-- What is gone where an emptied location is taken away. -/
theorem erase_effect {l : Location} {node : Node} (hnode : fs.get? l = some node)
    (hsame : SameOutside l fs fs') (htree : fs'.IsTree)
    (hbare : ∀ name, fs'.get? (l ++ [name]) = none) :
    FixtureAction.remove.Performed fs (fs'.erase l) l := by
  refine ⟨⟨by rw [hnode]; rfl, fun k hk => ?_⟩, fun k hk hout => .inl ?_⟩
  · rw [get?_erase]
    by_cases heq : k = l
    · exact if_pos heq
    · rw [if_neg heq]
      exact none_below htree hbare hk heq
  · rw [get?_erase, if_neg hk]
    exact hsame k (hout rfl)

theorem removeTree_effect {p : Path} {l : Location} {bits : Permissions} (htree : fs.IsTree)
    (hfind : fs.find false p = .ok (l, .directory bits))
    (hplace : ∀ place, fs.locatePlace p = .ok place → place.isNamed = true → place.location = l)
    (hok : fs.removeTree p = ⟨fs', none⟩) :
    FixtureAction.remove.Performed fs fs' l := by
  have hremove : fs.removeTree p = (emptyDirectory fs.depth fs l).andThen fun fs' =>
      Attempt.ofCall fs' (fs'.rmdir p) := by
    simp only [removeTree, hfind, Node.isDirectory, Bool.not_true, Bool.false_eq_true, if_false]
  rw [hremove] at hok
  obtain ⟨fs₁, hempty, hcall⟩ := andThen_eq_ok hok
  obtain ⟨place, -, hp, hnamed, -, -, hbare, rfl⟩ := rmdir_ok (ofCall_eq_ok hcall)
  have hshrinks := shrinks_emptyDirectory fs.depth fs l
  have hedits : Edits [] (fun _ => True) fs _ :=
    edits_emptyDirectory fs.depth fs l htree List.nil_prefix
  rw [hempty] at hshrinks hedits
  -- The place that is taken away was the same before anything was.
  obtain rfl := hplace place (locatePlace_mono hshrinks.grows hp) hnamed
  exact erase_effect (find_eq_ok.mp hfind).2.2 hshrinks.sameOutside (hedits.isTree htree) hbare

theorem unlink_effect {p : Path} {l : Location} (htree : fs.IsTree)
    (hplace : ∀ place, fs.locatePlace p = .ok place → place.isNamed = true → place.location = l)
    (hu : fs.unlink p = .ok fs') :
    FixtureAction.remove.Performed fs fs' l := by
  obtain ⟨place, node, hp, hnamed, -, hnode, hno, rfl⟩ := unlink_ok hu
  obtain rfl := hplace place hp hnamed
  refine erase_effect hnode (.refl _ _) htree (bare_of_not_directory htree fun bits hdir => ?_)
  obtain rfl := Option.some.inj (hnode.symm.trans hdir)
  cases hno

theorem frame_of_puts {action : FixtureAction} {l : Location} {node : Node}
    (hputs : Puts l node fs fs') : action.Frame fs fs' l :=
  fun _ hk _ => .inl (hputs.other hk)

/-! ## The actions -/

section

variable (htrue : h.Truthful) (htree : h.files.IsTree)
  (hbase : h.files.canonicalize ws.root = .ok ws.location)
  (hf : Path.isContained f = true) (hs : ws.Straight h.files f)

include hbase hf hs

theorem write_effect {content : Bytes}
    (hok : perform h (ws.resolve f) (.write content) = ⟨fs', none⟩) :
    (FixtureAction.write content).Performed h.files fs' (ws.spot f) := by
  obtain ⟨⟨bits, hputs⟩, -⟩ :=
    write_puts (fun place => place_spot hbase hf hs) (ofCall_eq_ok hok)
  exact ⟨⟨bits, hputs.self⟩, frame_of_puts hputs⟩

theorem append_effect {content : Bytes}
    (hok : perform h (ws.resolve f) (.append content) = ⟨fs', none⟩) :
    (FixtureAction.append content).Performed h.files fs' (ws.spot f) := by
  obtain ⟨l, bits, old, hfind, hcase⟩ := extend_ok (ofCall_eq_ok hok)
  obtain rfl := find_spot hbase hf hs hfind
  obtain ⟨-, -, hnode⟩ := find_eq_ok.mp hfind
  obtain ⟨bits', hputs⟩ : ∃ bits', Puts (ws.spot f) (.file bits' (old ++ content)) h.files fs' := by
    rcases hcase with ⟨rfl, rfl⟩ | rfl
    · exact ⟨bits, puts_self (by rw [List.append_nil, hnode])⟩
    · exact ⟨writtenTo bits, puts_replace hnode _⟩
  exact ⟨⟨bits, old, bits', hnode, hputs.self⟩, frame_of_puts hputs⟩

include htrue

theorem create_effect {content : Bytes} {mode : Option Permissions}
    (hok : perform h (ws.resolve f) (.create content mode) = ⟨fs', none⟩) :
    (FixtureAction.create content mode).Performed h.files fs' (ws.spot f) := by
  obtain ⟨fs₂, hmade, hset⟩ := andThen_eq_ok hok
  obtain ⟨fs₁, hparent, hcall⟩ := andThen_eq_ok hmade
  have hw := ofCall_eq_ok hcall
  obtain ⟨place, hplace, hnamed, -⟩ := write_ok hw
  obtain ⟨dir, name, hspot, hpaves⟩ :=
    ensureParent_paves htrue hbase hf hs (named_of_place hbase hf hplace hnamed)
  rw [hparent] at hpaves
  obtain ⟨⟨bits, hputs⟩, hfind⟩ := write_puts
    (fun place => place_spot (canonicalize_mono hpaves.grows hbase) hf (hpaves.unlinked hs)) hw
  have hputs' := hputs.trans (setMode_puts hputs.self hfind hset)
  refine ⟨?_, frame_of_paves rfl hpaves (hspot ▸ List.prefix_append ..) hputs'⟩
  cases mode with
  | none => exact ⟨bits, hputs'.self, fun given hgiven => by cases hgiven⟩
  | some given => exact ⟨given.twelve, hputs'.self, fun given' hgiven => by cases hgiven; rfl⟩

theorem symlink_effect {target : Path}
    (hok : perform h (ws.resolve f) (.symlink target) = ⟨fs', none⟩) :
    (FixtureAction.symlink target).Performed h.files fs' (ws.spot f) := by
  rw [perform] at hok
  obtain ⟨fs₁, hparent, hcall⟩ := andThen_eq_ok hok
  obtain ⟨place, hplace, hnamed, -, hfree, rfl⟩ := symlink_ok (ofCall_eq_ok hcall)
  obtain ⟨dir, name, hspot, hpaves⟩ :=
    ensureParent_paves htrue hbase hf hs (named_of_place hbase hf hplace hnamed)
  rw [hparent] at hpaves
  have hloc := place_spot (canonicalize_mono hpaves.grows hbase) hf (hpaves.unlinked hs) hplace
    hnamed
  rw [hloc] at hfree ⊢
  have hputs := puts_add fs₁ (ws.spot f) (.link target)
  refine ⟨⟨?_, hputs.self⟩, frame_of_paves rfl hpaves (hspot ▸ List.prefix_append ..) hputs⟩
  rcases hpaves.node (ws.spot f) with heq | ⟨hnone, -⟩
  · rw [← heq, hfree]
  · exact hnone

include htree

/-- The path leads to its spot, also when the way was paved, if the action
that is allowed is not about links. -/
theorem find_paved {action : FixtureAction} (hlinks : action.actsOnLinks = false)
    (hallow : ws.confine h action (ws.resolve f) = .ok ())
    (hpaves : Paves (ws.spot f) h.files fs') {l : Location} {node : Node}
    (hfind : fs'.find true (ws.resolve f) = .ok (l, node)) :
    l = ws.spot f ∧ ∀ target, node ≠ .link target := by
  have hclear := hpaves.unlinked hs
  have hbase' := canonicalize_mono hpaves.grows hbase
  -- A link at the end would have been there before, and refused.
  have hno : ∀ l' target, fs'.find false (ws.resolve f) ≠ .ok (l', .link target) := by
    intro l' target hlink
    obtain rfl := find_spot hbase' hf hclear hlink
    obtain ⟨hadm, hleads, hnode⟩ := find_eq_ok.mp hlink
    have hthere : (h.files.get? (ws.spot f)).isSome = true := by
      rcases hpaves.node (ws.spot f) with heq | ⟨-, -, bits, hdir⟩
      · rw [← heq, hnode]
        rfl
      · rw [hnode] at hdir
        cases hdir
    have hgrow := hpaves.grows_back htree hthere
    exact not_link_of_confine htrue hallow hlinks _ _
      (find_eq_ok.mpr ⟨hadm, hleads.mono hgrow, hgrow.link hnode⟩)
  rcases find_of_follow hfind with hsame | ⟨l', target, hlink⟩
  · refine ⟨find_spot hbase' hf hclear hsame, ?_⟩
    rintro target rfl
    exact hno l target hsame
  · exact absurd hlink (hno l' target)

theorem chmod_effect {given : Permissions}
    (hallow : ws.confine h (.chmod given) (ws.resolve f) = .ok ())
    (hok : perform h (ws.resolve f) (.chmod given) = ⟨fs', none⟩) :
    (FixtureAction.chmod given).Performed h.files fs' (ws.spot f) := by
  obtain ⟨l, node, hfind, rfl⟩ := chmod_ok (ofCall_eq_ok hok)
  obtain ⟨rfl, hlink⟩ := find_paved htrue htree hbase hf hs rfl hallow (.refl _ _) hfind
  obtain ⟨-, -, hnode⟩ := find_eq_ok.mp hfind
  rw [Permissions.ofMode_mode]
  have hputs := puts_replace hnode (node.withPermissions given.twelve)
  exact ⟨⟨node, hnode, hlink, hputs.self⟩, frame_of_puts hputs⟩

theorem mkdir_effect {mode : Option Permissions}
    (hallow : ws.confine h (.mkdir mode) (ws.resolve f) = .ok ())
    (hok : perform h (ws.resolve f) (.mkdir mode) = ⟨fs', none⟩) :
    (FixtureAction.mkdir mode).Performed h.files fs' (ws.spot f) := by
  obtain ⟨fs₁, hmade, hset⟩ := andThen_eq_ok hok
  have hpaved := mkdirAll_paves htrue hbase hf hs
  rw [hmade] at hpaved
  obtain ⟨l, bits, hfound⟩ := hpaved.there rfl (Path.append_ne_nil (Path.isContained_spec hf).1)
  have hpaves := hpaved.paves
  obtain ⟨rfl, -⟩ := find_paved htrue htree hbase hf hs rfl hallow hpaves hfound
  have hputs := setMode_puts (find_eq_ok.mp hfound).2.2 (fun l' node hfind => by
    rw [hfound] at hfind
    cases hfind
    rfl) hset
  refine ⟨?_, frame_of_paves rfl hpaves List.prefix_rfl hputs⟩
  cases mode with
  | none => exact ⟨bits, hputs.self, fun given hgiven => by cases hgiven⟩
  | some given => exact ⟨given.twelve, hputs.self, fun given' hgiven => by cases hgiven; rfl⟩

theorem remove_effect (hok : perform h (ws.resolve f) .remove = ⟨fs', none⟩) :
    FixtureAction.remove.Performed h.files fs' (ws.spot f) := by
  rw [perform] at hok
  cases hst : h.status false (ws.resolve f) with
  | error fault =>
      rw [hst] at hok
      cases hok
  | ok s =>
      obtain ⟨l, node, hfind, hmode⟩ := Host.find_of_status htrue hst
      obtain rfl := find_spot hbase hf hs hfind
      simp only [hst] at hok
      split at hok
      · rename_i hdir
        obtain ⟨bits, rfl⟩ := Status.directory_of_isDirectory hmode hdir
        have hremove : h.removeAll (ws.resolve f) = h.files.removeTree (ws.resolve f) := by
          simp only [Host.removeAll, hst, Status.isLink_of_directory hmode, Bool.false_eq_true,
            if_false]
        rw [hremove] at hok
        exact removeTree_effect htree hfind (fun place => place_spot hbase hf hs) hok
      · exact unlink_effect htree (fun place => place_spot hbase hf hs) (ofCall_eq_ok hok)

end

/-! ## Fixtures -/

/-- A fixture that no fault was reported of was allowed, and all of its
action was done. -/
theorem perform_of_apply {fixture : Fixture} (hok : (ws.apply h fixture).2 = none) :
    Path.isContained fixture.path = true
      ∧ ws.confine h fixture.action (ws.resolve fixture.path) = .ok ()
      ∧ perform h (ws.resolve fixture.path) fixture.action = ⟨(ws.apply h fixture).1, none⟩ := by
  unfold apply at hok ⊢
  dsimp only at hok ⊢
  split at hok
  · cases hok
  · rename_i hf
    rw [if_neg hf]
    split at hok
    · cases hok
    · rename_i u hallow
      rw [hallow]
      split at hok
      · cases hok
      · refine ⟨by simpa using hf, rfl, ?_⟩
        dsimp only
        rw [← Option.map_eq_none_iff.mp hok]

/-- What a fixture has done at the spot of its path, what it has left as it
was, and that nothing is missing above the spot. -/
structure Effect (ws : Workspace) (fixture : Fixture) (fs fs' : FileSystem) : Prop
    extends fixture.action.Performed fs fs' (ws.spot fixture.path) where
  above : ∀ k, k <+: ws.spot fixture.path → k ≠ ws.spot fixture.path →
    ∃ bits, fs'.get? k = some (.directory bits)

theorem perform_effect (htrue : h.Truthful) (htree : h.files.IsTree)
    (hbase : h.files.canonicalize ws.root = .ok ws.location) (hf : Path.isContained f = true)
    (hs : ws.Straight h.files f) {action : FixtureAction}
    (hallow : ws.confine h action (ws.resolve f) = .ok ())
    (hok : perform h (ws.resolve f) action = ⟨fs', none⟩) :
    action.Performed h.files fs' (ws.spot f) := by
  cases action with
  | create content mode => exact create_effect htrue hbase hf hs hok
  | mkdir mode => exact mkdir_effect htrue htree hbase hf hs hallow hok
  | symlink target => exact symlink_effect htrue hbase hf hs hok
  | chmod given => exact chmod_effect htrue htree hbase hf hs hallow hok
  | write content => exact write_effect hbase hf hs hok
  | append content => exact append_effect hbase hf hs hok
  | remove => exact remove_effect htrue htree hbase hf hs hok

/-- **Effects.** Where no link is on the way of its path, a fixture that no
fault is reported of has done what its action says, and nothing else but
to make the directories that were missing above, if its action makes
them. -/
theorem apply_effect (htrue : h.Truthful) (htree : h.files.IsTree)
    (hbase : h.files.canonicalize ws.root = .ok ws.location) {fixture : Fixture}
    (hs : ws.Straight h.files fixture.path) (hok : (ws.apply h fixture).2 = none) :
    ws.Effect fixture h.files (ws.apply h fixture).1 := by
  obtain ⟨hf, hallow, hperform⟩ := perform_of_apply hok
  have hperformed := perform_effect htrue htree hbase hf hs hallow hperform
  refine ⟨hperformed, fun k hk hne => ?_⟩
  obtain ⟨hdone, hframe⟩ := hperformed
  obtain ⟨name, rest, hrest⟩ : ∃ name rest, ws.spot fixture.path = k ++ name :: rest := by
    obtain ⟨rest, hrest⟩ := hk
    cases rest with
    | nil => exact absurd (by simpa using hrest) hne
    | cons name rest => exact ⟨name, rest, hrest.symm⟩
  by_cases hremove : fixture.action = .remove
  · -- What was removed was below directories, and these are not touched.
    rw [hremove] at hdone hframe
    obtain ⟨bits, hdir⟩ := directory_above htree (hrest ▸ hdone.1)
    refine ⟨bits, ?_⟩
    rcases hframe k hne fun _ hpre =>
        hne (hk.eq_of_length (Nat.le_antisymm hk.length_le hpre.length_le)) with heq | ⟨hno, -⟩
    · rw [heq, hdir]
    · cases hno
  · have hedits := apply_edits htrue htree hbase fixture fun hf _ l node hfind => by
      rw [find_spot hbase hf hs hfind]
      exact List.prefix_append ..
    exact directory_above (hedits.isTree htree) (hrest ▸ hdone.isSome hremove)

namespace LinkedBeside

/-- A workspace with a directory, a file in it, and a link to it. -/
def host : Host where
  files := ⟨[([], .directory ⟨0o755⟩), ([Path.ofText "w"], .directory ⟨0o755⟩),
    ([Path.ofText "w", Path.ofText "d"], .directory ⟨0o755⟩),
    ([Path.ofText "w", Path.ofText "d", Path.ofText "old"], .file ⟨0o644⟩ []),
    ([Path.ofText "w", Path.ofText "l"], .link (Path.ofText "d"))], []⟩
  overlay _ := none
  base := ⟨0, 0, 0, ⟨0, 0⟩, ⟨0, 0⟩, ⟨0, 0⟩⟩
  names := ⟨fun _ _ _ => .nothing⟩

def workspace : Workspace := ⟨Path.ofText "/w", [Path.ofText "w"]⟩

/-- A file with all sorts of permissions, below a directory that is
missing. -/
def create : Fixture := ⟨Path.ofText "d//new/./f", .create (Path.ofText "text") (some ⟨0o4755⟩)⟩

theorem truthful : host.Truthful := fun _ => .inl rfl

theorem isTree : host.files.IsTree := isTree_of_nodes (by decide +kernel)

theorem straight : workspace.Straight host.files create.path := by
  intro l target hl hspot hlink
  obtain ⟨before, after, hnodes, -⟩ := List.lookup_eq_some_iff.mp hlink
  have hmem : (l, Node.link target) ∈ host.files.nodes := by
    rw [hnodes]
    simp
  obtain ⟨rfl, -⟩ : l = [Path.ofText "w", Path.ofText "l"] ∧ target = Path.ofText "d" := by
    simpa [host] using hmem
  exact absurd hspot (by decide +kernel)

end LinkedBeside

/-- A file is made with the directory above it, and nothing else. -/
theorem apply_effect_create :
    LinkedBeside.host.Truthful ∧ LinkedBeside.host.files.IsTree
      ∧ LinkedBeside.host.files.canonicalize LinkedBeside.workspace.root
          = .ok LinkedBeside.workspace.location
      ∧ LinkedBeside.workspace.Straight LinkedBeside.host.files LinkedBeside.create.path
      ∧ (LinkedBeside.workspace.apply LinkedBeside.host LinkedBeside.create).2 = none
      ∧ LinkedBeside.workspace.Effect LinkedBeside.create LinkedBeside.host.files
          (LinkedBeside.workspace.apply LinkedBeside.host LinkedBeside.create).1 :=
  ⟨LinkedBeside.truthful, LinkedBeside.isTree, by cbv, LinkedBeside.straight, by cbv,
    apply_effect LinkedBeside.truthful LinkedBeside.isTree (by cbv) LinkedBeside.straight
      (by cbv)⟩

end Workspace

end Conformance
