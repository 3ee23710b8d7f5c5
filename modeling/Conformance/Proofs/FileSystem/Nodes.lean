import Conformance.FileSystem.Calls
import Conformance.Proofs.Association

/-!
# Nodes before and after a change

A change of a file system is known by what it leaves at each location.
`add`, `replace` and `erase` touch one location only. Two relations
between the files before and after say what matters of a change:
`SameOutside` that nothing changed but below some location, and `Grows`
that everything a path can be followed through is still there.
-/

namespace Conformance

/-- Two nodes that lead a walk the same way: they are the same, or both
are files. -/
def Node.Alike (n n' : Node) : Prop :=
  n' = n ∨ ∃ mode content mode' content', n = .file mode content ∧ n' = .file mode' content'

theorem Node.Alike.trans {n n' n'' : Node} (h : n.Alike n') (h' : n'.Alike n'') :
    n.Alike n'' := by
  rcases h with rfl | ⟨mode, content, mode', content', rfl, rfl⟩
  · exact h'
  · rcases h' with rfl | ⟨_, _, mode'', content'', -, rfl⟩
    · exact .inr ⟨_, _, _, _, rfl, rfl⟩
    · exact .inr ⟨_, _, _, _, rfl, rfl⟩

namespace FileSystem

/-! ## One location -/

theorem get?_add (fs : FileSystem) (loc : Location) (node : Node) (l : Location) :
    (fs.add loc node).get? l = if l = loc then some node else fs.get? l := by
  unfold get? add
  rw [List.lookup_append, Association.lookup_filter_ne, Association.lookup_cons]
  by_cases h : l = loc
  · simp [h]
  · simp [h]

theorem get?_replace (fs : FileSystem) (loc : Location) (node : Node) (l : Location) :
    (fs.replace loc node).get? l
      = if l = loc then (fs.get? l).map fun _ => node else fs.get? l :=
  Association.lookup_map_key loc node l fs.nodes

theorem get?_erase (fs : FileSystem) (loc l : Location) :
    (fs.erase loc).get? l = if l = loc then none else fs.get? l :=
  Association.lookup_filter_ne loc l fs.nodes

/-! ## Changes below a location -/

/-- Existence, content and permissions are what they were, for
everything that is not at or below a location. -/
def SameOutside (root : Location) (fs fs' : FileSystem) : Prop :=
  ∀ loc, ¬ root <+: loc → fs'.get? loc = fs.get? loc

theorem SameOutside.refl (root : Location) (fs : FileSystem) : SameOutside root fs fs :=
  fun _ _ => rfl

theorem SameOutside.trans {root : Location} {fs fs' fs'' : FileSystem}
    (h : SameOutside root fs fs') (h' : SameOutside root fs' fs'') : SameOutside root fs fs'' :=
  fun loc hloc => (h' loc hloc).trans (h loc hloc)

theorem sameOutside_add {root loc : Location} (hloc : root <+: loc) (fs : FileSystem)
    (node : Node) : SameOutside root fs (fs.add loc node) := by
  intro l hl
  rw [get?_add, if_neg]
  rintro rfl
  exact hl hloc

theorem sameOutside_replace {root loc : Location} (hloc : root <+: loc) (fs : FileSystem)
    (node : Node) : SameOutside root fs (fs.replace loc node) := by
  intro l hl
  rw [get?_replace, if_neg]
  rintro rfl
  exact hl hloc

theorem sameOutside_erase {root loc : Location} (hloc : root <+: loc) (fs : FileSystem) :
    SameOutside root fs (fs.erase loc) := by
  intro l hl
  rw [get?_erase, if_neg]
  rintro rfl
  exact hl hloc

/-! ## What a walk still finds -/

/-- Paths start where they did, and every node that was there still is,
but for the content and the permissions of files. -/
structure Grows (fs fs' : FileSystem) : Prop where
  start : fs'.start = fs.start
  node : ∀ {loc n}, fs.get? loc = some n → ∃ n', fs'.get? loc = some n' ∧ n.Alike n'

theorem Grows.refl (fs : FileSystem) : Grows fs fs :=
  ⟨rfl, fun {_ n} h => ⟨n, h, .inl rfl⟩⟩

theorem Grows.trans {fs fs' fs'' : FileSystem} (h : Grows fs fs') (h' : Grows fs' fs'') :
    Grows fs fs'' := by
  refine ⟨h'.start.trans h.start, fun {_ n} hn => ?_⟩
  obtain ⟨n', hn', halike⟩ := h.node hn
  obtain ⟨n'', hn'', halike'⟩ := h'.node hn'
  exact ⟨n'', hn'', halike.trans halike'⟩

theorem Grows.directory {fs fs' : FileSystem} (h : Grows fs fs') {loc : Location}
    {mode : Permissions} (hdir : fs.get? loc = some (.directory mode)) :
    fs'.get? loc = some (.directory mode) := by
  obtain ⟨n', hn', rfl | ⟨_, _, _, _, hfile, -⟩⟩ := h.node hdir
  · exact hn'
  · cases hfile

theorem Grows.link {fs fs' : FileSystem} (h : Grows fs fs') {loc : Location}
    {target : Path} (hlink : fs.get? loc = some (.link target)) :
    fs'.get? loc = some (.link target) := by
  obtain ⟨n', hn', rfl | ⟨_, _, _, _, hfile, -⟩⟩ := h.node hlink
  · exact hn'
  · cases hfile

/-- A new node is in nobody's way. -/
theorem grows_add {fs : FileSystem} {loc : Location} (hfree : fs.get? loc = none)
    (node : Node) : Grows fs (fs.add loc node) := by
  refine ⟨rfl, fun {l n} hn => ⟨n, ?_, .inl rfl⟩⟩
  rw [get?_add, if_neg]
  · exact hn
  · rintro rfl
    rw [hfree] at hn
    cases hn

theorem grows_replace_file {fs : FileSystem} {loc : Location} {mode mode' : Permissions}
    {content content' : Bytes} (hfile : fs.get? loc = some (.file mode content)) :
    Grows fs (fs.replace loc (.file mode' content')) := by
  refine ⟨rfl, fun {l n} hn => ?_⟩
  rw [get?_replace]
  by_cases h : l = loc
  · subst h
    rw [hfile] at hn
    obtain rfl := Option.some.inj hn
    exact ⟨_, by rw [if_pos rfl, hfile]; rfl, .inr ⟨_, _, _, _, rfl, rfl⟩⟩
  · exact ⟨n, by rw [if_neg h]; exact hn, .inl rfl⟩

/-! ## Trees -/

/-- Whatever is below a location is in a directory. -/
def IsTree (fs : FileSystem) : Prop :=
  ∀ {loc name node}, fs.get? (loc ++ [name]) = some node →
    ∃ mode, fs.get? loc = some (.directory mode)

/-- The nodes themselves tell whether they are a tree. -/
theorem isTree_of_nodes {fs : FileSystem}
    (h : ∀ e ∈ fs.nodes, e.1 = [] ∨ (fs.get? e.1.dropLast).any Node.isDirectory = true) :
    fs.IsTree := by
  intro loc name node hnode
  obtain ⟨before, after, hnodes, -⟩ := List.lookup_eq_some_iff.mp hnode
  rcases h (loc ++ [name], node) (by rw [hnodes]; simp) with hnil | hdir
  · simp at hnil
  · rw [List.dropLast_concat, Option.any_eq_true] at hdir
    obtain ⟨up, hup, hisDir⟩ := hdir
    cases up with
    | directory mode => exact ⟨mode, hup⟩
    | file mode content => cases hisDir
    | link target => cases hisDir

/-- In a tree nothing is below what is no directory. -/
theorem bare_of_not_directory {fs : FileSystem} (htree : fs.IsTree) {loc : Location}
    (hno : ∀ mode, fs.get? loc ≠ some (.directory mode)) (name : Bytes) :
    fs.get? (loc ++ [name]) = none := by
  cases h : fs.get? (loc ++ [name]) with
  | none => rfl
  | some node =>
      obtain ⟨mode, hmode⟩ := htree h
      exact absurd hmode (hno mode)

/-! ## What is in a directory -/

theorem childName?_eq_some {dir loc : Location} {name : Bytes} :
    childName? dir loc = some name ↔ loc = dir ++ [name] := by
  unfold childName?
  rcases List.eq_nil_or_concat loc with rfl | ⟨up, last, rfl⟩
  · simp
  · rw [List.concat_eq_append, List.getLast?_concat, List.dropLast_concat]
    by_cases hup : up = dir
    · simp [hup]
    · simp [hup]

theorem mem_children {fs : FileSystem} {dir : Location} {name : Bytes} :
    name ∈ fs.children dir ↔ (fs.get? (dir ++ [name])).isSome = true := by
  unfold children get?
  rw [List.mem_filterMap, List.lookup_isSome_iff]
  constructor
  · rintro ⟨e, he, hname⟩
    exact ⟨e, he, by simp [childName?_eq_some.mp hname]⟩
  · rintro ⟨e, he, hloc⟩
    exact ⟨e, he, childName?_eq_some.mpr (eq_of_beq hloc).symm⟩

theorem isEmptyDir_iff {fs : FileSystem} {dir : Location} :
    fs.isEmptyDir dir = true ↔ ∀ name, fs.get? (dir ++ [name]) = none := by
  rw [isEmptyDir, List.isEmpty_iff, List.eq_nil_iff_forall_not_mem]
  exact forall_congr' fun name => by rw [mem_children]; simp

end FileSystem

end Conformance
