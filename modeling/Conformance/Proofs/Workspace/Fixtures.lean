import Mathlib
import Conformance.Proofs.FileSystem.Walkers
import Conformance.Proofs.Workspace.Tended

/-!
# Sequences of fixtures

Fixtures are applied one after the other, each to the files that the one
before has left, whether that was refused, done, or stopped half way. A
new workspace is `Tended`, and every fixture leaves it so
(`Tended.applyAll`). Nothing leads out of a workspace that is tended
(`Tended.sealed`): not where a path ends, nor any location that a walk
comes by, also one that ends in an error.
-/

namespace Conformance

open FileSystem

namespace Workspace

def applyAll (ws : Workspace) (h : Host) : List Fixture → FileSystem
  | [] => h.files
  | fixture :: r => ws.applyAll { h with files := (ws.apply h fixture).1 } r

/-- Nothing leads out of a workspace, and around it the files are as they
were before it was made. -/
structure Sealed (ws : Workspace) (before fs : FileSystem) : Prop where
  /-- The links in it have relative targets without `..`. -/
  links : ∀ l target, ws.location <+: l → fs.get? l = some (.link target) →
    Path.isAbsolute target = false ∧ ∀ s ∈ Path.steps target, s ≠ Path.dotDot
  /-- A walk along a contained path is in it at all times, until it has
  its answer. -/
  walks : ∀ f, Path.isContained f = true → ∀ follow n w,
    Walker.Reaches fs follow ⟨n, ws.location, Path.steps f⟩ w →
      ws.location <+: w.loc
        ∧ fs.walk follow w.links w.loc w.names = fs.walk follow n ws.location (Path.steps f)
  ends : ∀ f, Path.isContained f = true → ∀ l,
    ((∃ follow, fs.locate follow (ws.resolve f) = .ok l)
      ∨ fs.canonicalize (ws.resolve f) = .ok l) → ws.location <+: l
  /-- Its own path leads to it, and it is a directory. -/
  stands : ∀ follow, ∃ mode, fs.find follow ws.root = .ok (ws.location, .directory mode)
  outside : SameOutside ws.location before fs

variable {ws : Workspace} {files fs : FileSystem} {place : Place}

theorem Tended.applyAll (hf : ws.Founded files place) : ∀ (fixtures : List Fixture) {h : Host},
    h.Truthful → ws.Tended files h.files → ws.Tended files (ws.applyAll h fixtures)
  | [], _, _, ht => ht
  | fixture :: r, _, htrue, ht => Tended.applyAll hf r htrue (ht.apply hf htrue fixture)

theorem Tended.sealed (ht : ws.Tended files fs) (hf : ws.Founded files place) :
    ws.Sealed files fs where
  links l target hin hlink := (Path.isContained_spec (ht.links l target hin hlink)).2
  walks f hcontained follow n w hreach := by
    have hstart : Walker.Stays ws.location ⟨n, ws.location, Path.steps f⟩ :=
      ⟨List.prefix_rfl, (Path.isContained_spec hcontained).2.2⟩
    exact ⟨(hstart.reaches ht.toRooted hreach).inside, hreach.walk_eq⟩
  ends f hcontained l hl := by
    obtain ⟨follow, hleads⟩ : ∃ follow, fs.LeadsTo follow (ws.resolve f) l := by
      rcases hl with ⟨follow, hl⟩ | hl
      · exact ⟨follow, (locate_eq_ok.mp hl).2⟩
      · exact ⟨true, (canonicalize_eq_ok.mp hl).2.2.1⟩
    -- The path of the workspace leads to it, and the rest is a walk in it.
    obtain ⟨n, m, hrest⟩ := leads_resolve (ht.canonicalize hf) hcontained hleads
    exact ht.inside hrest List.prefix_rfl (Path.isContained_spec hcontained).2.2
  stands follow := ht.find hf follow
  outside := ht.outside

/-- **Fixture runs stay inside.** After any fixtures on a new workspace,
each of them refused, done or stopped half way, nothing leads out of the
workspace, it is there, and nothing around it has changed. -/
theorem applyAll_sealed {h : Host} {root : Path} {made : FileSystem} (htrue : h.Truthful)
    (htree : h.files.IsTree) (hcreate : create h.files root = .ok (made, ws))
    (fixtures : List Fixture) :
    ws.Sealed h.files (ws.applyAll { h with files := made } fixtures) := by
  obtain ⟨⟨place, hf⟩, ht, -⟩ := create_ok htree hcreate
  exact (Tended.applyAll hf fixtures (h := { h with files := made }) htrue ht).sealed hf

/-! ## A workspace that is linked to itself -/

namespace LinkedToItself

def host : Host :=
  ⟨.empty, fun _ => none, ⟨0, 0, 0, ⟨0, 0⟩, ⟨0, 0⟩, ⟨0, 0⟩⟩, ⟨fun _ _ _ => .nothing⟩⟩

def workspace : Workspace := ⟨Path.ofText "/w", [Path.ofText "w"]⟩

def made : FileSystem := FileSystem.empty.add [Path.ofText "w"] (.directory newDirectory)

/-- A link to the workspace, a directory made through it, a link to
itself in there, a file behind that link, and a link out. The last two
are not made. -/
def fixtures : List Fixture := [
  ⟨Path.ofText "here", .symlink (Path.ofText ".")⟩,
  ⟨Path.ofText "here/here/d", .mkdir none⟩,
  ⟨Path.ofText "d/self", .symlink (Path.ofText "self")⟩,
  ⟨Path.ofText "d/self/f", .create [] none⟩,
  ⟨Path.ofText "out", .symlink (Path.ofText "../etc")⟩]

theorem created : create host.files (Path.ofText "/w") = .ok (made, workspace) := by
  cbv

end LinkedToItself

theorem applyAll_sealed_linkedToItself :
    create LinkedToItself.host.files (Path.ofText "/w")
        = .ok (LinkedToItself.made, LinkedToItself.workspace)
      ∧ LinkedToItself.workspace.Sealed .empty (LinkedToItself.workspace.applyAll
          { LinkedToItself.host with files := LinkedToItself.made } LinkedToItself.fixtures) :=
  ⟨LinkedToItself.created, applyAll_sealed (fun _ => .inl rfl)
    (isTree_of_nodes (by decide +kernel)) LinkedToItself.created LinkedToItself.fixtures⟩

end Workspace

end Conformance
