import Mathlib.Logic.Relation
import Conformance.Proofs.FileSystem.Nodes

/-!
# Edits at and below a root

Whatever calls do to the files at and below some directory, it comes down
to three edits: a node is added to a directory, a node gives way to one
of the same sort, and a node with nothing below it is erased. `links`
says which targets a new link may have.

So an invariant of the files need only be checked against the edits.
Files stay a tree (`Edits.isTree`), nothing outside the root changes
(`Edits.sameOutside`), and the root stays a directory in which every link
has one of these targets (`Edits.rooted`).
-/

namespace Conformance

/-- One node may stand in for another: both are directories, both are
files, or both are the same link. -/
inductive Node.SameSort : Node → Node → Prop
  | directory {mode mode'} : SameSort (.directory mode) (.directory mode')
  | file {mode mode' content content'} : SameSort (.file mode content) (.file mode' content')
  | link {target} : SameSort (.link target) (.link target)

theorem Node.sameSort_withPermissions (mode : Permissions) (node : Node) :
    node.SameSort (node.withPermissions mode) := by
  cases node <;> constructor

namespace FileSystem

/-- One change of the files at or below a root. -/
inductive Edit (root : Location) (links : Path → Prop) (fs : FileSystem) : FileSystem → Prop
  | add {dir name mode node} (hin : root <+: dir) (hdir : fs.get? dir = some (.directory mode))
      (hfree : fs.get? (dir ++ [name]) = none)
      (hlinks : ∀ target, node = .link target → links target) :
      Edit root links fs (fs.add (dir ++ [name]) node)
  | replace {loc old new} (hin : root <+: loc) (hold : fs.get? loc = some old)
      (hsort : old.SameSort new) : Edit root links fs (fs.replace loc new)
  | erase {dir name} (hin : root <+: dir)
      (hbare : ∀ below, fs.get? (dir ++ [name] ++ [below]) = none) :
      Edit root links fs (fs.erase (dir ++ [name]))

/-- Several edits. -/
abbrev Edits (root : Location) (links : Path → Prop) : FileSystem → FileSystem → Prop :=
  Relation.ReflTransGen (Edit root links)

variable {root : Location} {links : Path → Prop} {fs fs' : FileSystem}

/-- Of what is below a directory none is that directory. -/
theorem below_ne {dir : Location} (hin : root <+: dir) (name : Bytes) : root ≠ dir ++ [name] := by
  intro heq
  have hlen := hin.length_le
  rw [heq, List.length_append, List.length_singleton] at hlen
  omega

/-! ## What an edit keeps -/

theorem Edit.start (h : Edit root links fs fs') : fs'.start = fs.start := by
  cases h <;> rfl

theorem Edit.sameOutside (h : Edit root links fs fs') : SameOutside root fs fs' := by
  cases h with
  | add hin _ _ _ => exact sameOutside_add (hin.trans (List.prefix_append ..)) fs _
  | replace hin _ _ => exact sameOutside_replace hin fs _
  | erase hin _ => exact sameOutside_erase (hin.trans (List.prefix_append ..)) fs

/-- The nodes of files that were edited: each was there before, in this
form or another of its sort, or else it is new. -/
theorem Edit.node (h : Edit root links fs fs') {loc : Location} {node : Node}
    (hnode : fs'.get? loc = some node) :
    (∃ old, fs.get? loc = some old ∧ (old = node ∨ old.SameSort node))
      ∨ (fs.get? loc = none ∧ ∀ target, node = .link target → links target) := by
  cases h with
  | @add dir name mode new hin hdir hfree hlinks =>
      rw [get?_add] at hnode
      by_cases heq : loc = dir ++ [name]
      · rw [if_pos heq] at hnode
        obtain rfl := Option.some.inj hnode
        exact .inr ⟨heq ▸ hfree, hlinks⟩
      · rw [if_neg heq] at hnode
        exact .inl ⟨node, hnode, .inl rfl⟩
  | @replace at_ old new hin hold hsort =>
      rw [get?_replace] at hnode
      by_cases heq : loc = at_
      · subst heq
        rw [if_pos rfl, hold] at hnode
        obtain rfl := Option.some.inj hnode
        exact .inl ⟨old, hold, .inr hsort⟩
      · rw [if_neg heq] at hnode
        exact .inl ⟨node, hnode, .inl rfl⟩
  | @erase dir name hin hbare =>
      rw [get?_erase] at hnode
      by_cases heq : loc = dir ++ [name]
      · rw [if_pos heq] at hnode
        cases hnode
      · rw [if_neg heq] at hnode
        exact .inl ⟨node, hnode, .inl rfl⟩

/-- A directory stays one, unless nothing is below it. -/
theorem Edit.directory (h : Edit root links fs fs') {loc : Location} {mode : Permissions}
    (hdir : fs.get? loc = some (.directory mode))
    (hkept : (∃ below, (fs.get? (loc ++ [below])).isSome = true) ∨ loc = root) :
    ∃ mode', fs'.get? loc = some (.directory mode') := by
  cases h with
  | @add dir name mode' node hin hdir' hfree hlinks =>
      refine ⟨mode, ?_⟩
      rw [get?_add, if_neg, hdir]
      rintro rfl
      rw [hfree] at hdir
      cases hdir
  | @replace at_ old new hin hold hsort =>
      rw [get?_replace]
      by_cases heq : loc = at_
      · subst heq
        obtain rfl := Option.some.inj (hdir.symm.trans hold)
        cases hsort
        exact ⟨_, by rw [if_pos rfl, hdir]; rfl⟩
      · exact ⟨mode, by rw [if_neg heq, hdir]⟩
  | @erase dir name hin hbare =>
      refine ⟨mode, ?_⟩
      rw [get?_erase, if_neg, hdir]
      rintro rfl
      rcases hkept with ⟨below, hbelow⟩ | hroot
      · rw [hbare below] at hbelow
        cases hbelow
      · exact below_ne hin name hroot.symm

theorem Edit.isTree (h : Edit root links fs fs') (htree : fs.IsTree) : fs'.IsTree := by
  intro loc name node hnode
  rcases h.node hnode with ⟨old, hold, -⟩ | ⟨hfree, -⟩
  · obtain ⟨mode, hdir⟩ := htree hold
    exact h.directory hdir (.inl ⟨name, by rw [hold]; rfl⟩)
  · cases h with
    | @add dir name' mode' new hin hdir hfree' hlinks =>
        rw [get?_add] at hnode
        by_cases heq : loc ++ [name] = dir ++ [name']
        · obtain ⟨rfl, -⟩ := List.append_inj' heq rfl
          refine ⟨mode', ?_⟩
          rw [get?_add, if_neg (by simp), hdir]
        · rw [if_neg heq, hfree] at hnode
          cases hnode
    | @replace at_ old new hin hold hsort =>
        rw [get?_replace, hfree] at hnode
        split at hnode <;> cases hnode
    | @erase dir name' hin hbare =>
        rw [get?_erase, hfree] at hnode
        split at hnode <;> cases hnode

/-- The root is a directory, and every link in it has one of the
targets. -/
structure Rooted (root : Location) (links : Path → Prop) (fs : FileSystem) : Prop where
  tree : fs.IsTree
  directory : ∃ mode, fs.get? root = some (.directory mode)
  links : ∀ l target, root <+: l → fs.get? l = some (.link target) → links target

theorem Edit.rooted (h : Edit root links fs fs') (hroot : fs.Rooted root links) :
    fs'.Rooted root links := by
  obtain ⟨mode, hdir⟩ := hroot.directory
  refine ⟨h.isTree hroot.tree, h.directory hdir (.inr rfl), fun l target hin hlink => ?_⟩
  rcases h.node hlink with ⟨old, hold, rfl | hsort⟩ | ⟨-, hnew⟩
  · exact hroot.links l target hin hold
  · cases hsort
    exact hroot.links l target hin hold
  · exact hnew target rfl

/-! ## What edits keep -/

theorem Edits.start (h : Edits root links fs fs') : fs'.start = fs.start := by
  induction h with
  | refl => rfl
  | tail _ hedit ih => exact hedit.start.trans ih

theorem Edits.sameOutside (h : Edits root links fs fs') : SameOutside root fs fs' := by
  induction h with
  | refl => exact .refl root fs
  | tail _ hedit ih => exact ih.trans hedit.sameOutside

theorem Edits.isTree (h : Edits root links fs fs') (htree : fs.IsTree) : fs'.IsTree := by
  induction h with
  | refl => exact htree
  | tail _ hedit ih => exact hedit.isTree ih

theorem Edits.rooted (h : Edits root links fs fs') (hroot : fs.Rooted root links) :
    fs'.Rooted root links := by
  induction h with
  | refl => exact hroot
  | tail _ hedit ih => exact hedit.rooted ih

/-! ## Attempts -/

theorem edits_andThen {a : Attempt} {work : FileSystem → Attempt}
    (ha : Edits root links fs a.files)
    (hwork : a.fault = none → Edits root links a.files (work a.files).files) :
    Edits root links fs (a.andThen work).files := by
  obtain ⟨files, fault⟩ := a
  cases fault with
  | none => exact ha.trans (hwork rfl)
  | some fault => exact ha

theorem edits_ofCall {e : Except OsFault FileSystem}
    (hok : ∀ fs', e = .ok fs' → Edits root links fs fs') :
    Edits root links fs (Attempt.ofCall fs e).files := by
  cases e with
  | ok fs' => exact hok fs' rfl
  | error fault => exact .refl

end FileSystem

end Conformance
