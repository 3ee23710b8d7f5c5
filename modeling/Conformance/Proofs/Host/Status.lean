import Conformance.Proofs.FileSystem.Places
import Conformance.Host

/-!
# The status of files

A host is truthful when what it says about the type and the permissions
of a file is what the file system holds; owners, times and lists may be
anything. The status of a path then tells a link and a directory apart
from everything else.
-/

namespace Conformance

/-- What a host is told to say about single paths leaves the type and
the permissions of files alone. -/
def Host.Truthful (h : Host) : Prop :=
  ∀ p, h.overlay p = none
    ∨ ∃ change list, h.overlay p = some (.differs change list) ∧ change.mode = none

namespace Host

variable {h : Host} {follow : Bool} {p : Path}

theorem find_of_nul {fs : FileSystem} (hnul : p.contains 0 = true) :
    fs.find follow p = .error .nulInPath := by
  have hadm : FileSystem.admissible p = .error .nulInPath := if_pos hnul
  simp only [FileSystem.find, FileSystem.locate, hadm, bind, Except.bind]

/-- What is found at a path has a status with its mode. -/
theorem status_of_find (htrue : h.Truthful) {l : Location} {node : Node}
    (hfind : h.files.find follow p = .ok (l, node)) :
    ∃ s, h.status follow p = .ok s ∧ s.mode = Status.modeOf node := by
  have hnul : ¬ p.contains 0 = true := by
    intro hnul
    rw [find_of_nul hnul] at hfind
    cases hfind
  unfold status
  rw [if_neg hnul]
  rcases htrue p with hnone | ⟨change, list, hsome, hmode⟩
  · exact ⟨Status.ofNode h.base node, by simp [hnone, hfind, Except.map], rfl⟩
  · refine ⟨change.apply (Status.ofNode h.base node), by simp [hsome, hfind, Except.map], ?_⟩
    simp [StatusChange.apply, hmode, Status.ofNode]

theorem find_of_status (htrue : h.Truthful) {s : Status} (hs : h.status follow p = .ok s) :
    ∃ l node, h.files.find follow p = .ok (l, node) ∧ s.mode = Status.modeOf node := by
  cases hfind : h.files.find follow p with
  | ok found =>
      obtain ⟨l, node⟩ := found
      obtain ⟨s', hs', hmode⟩ := status_of_find htrue hfind
      obtain rfl := Except.ok.inj (hs.symm.trans hs')
      exact ⟨l, node, rfl, hmode⟩
  | error fault =>
      unfold status at hs
      split at hs
      · cases hs
      · rcases htrue p with hnone | ⟨change, list, hsome, -⟩
        · simp [hnone, hfind, Except.map] at hs
        · simp [hsome, hfind, Except.map] at hs

theorem status_of_find_error (htrue : h.Truthful) {fault : OsFault}
    (hfind : h.files.find follow p = .error fault) : h.status follow p = .error fault := by
  unfold status
  split
  · rename_i hnul
    rw [find_of_nul hnul] at hfind
    exact congrArg _ (Except.error.inj hfind)
  · rcases htrue p with hnone | ⟨change, list, hsome, -⟩
    · simp [hnone, hfind, Except.map]
    · simp [hsome, hfind, Except.map]

theorem find_of_isDirectory (htrue : h.Truthful) (hdir : h.isDirectory p = true) :
    ∃ l node, h.files.find true p = .ok (l, node) := by
  unfold isDirectory at hdir
  cases hs : h.status true p with
  | ok s =>
      obtain ⟨l, node, hfind, -⟩ := find_of_status htrue hs
      exact ⟨l, node, hfind⟩
  | error fault => simp [hs] at hdir

end Host

/-! ## The type in a mode -/

namespace Status

theorem isLink_of_link {s : Status} {target : Path} (hs : s.mode = modeOf (.link target)) :
    s.isLink = true := by
  have hmode : s.mode = 0o120000 ||| (⟨0o777⟩ : Permissions).mode := hs
  rw [isLink, hmode]
  decide

/-- The permissions can add bits to the type in a mode, but take none
away. -/
theorem testBit_type {type m t : UInt32} (h : (type ||| m) &&& typeMask = t) (i : Nat)
    (htype : type.toNat.testBit i = true) (hmask : typeMask.toNat.testBit i = true) :
    t.toNat.testBit i = true := by
  rw [← h, UInt32.toNat_and, UInt32.toNat_or, Nat.testBit_and, Nat.testBit_or, htype, hmask]
  rfl

theorem isLink_of_directory {s : Status} {mode : Permissions}
    (hs : s.mode = modeOf (.directory mode)) : s.isLink = false := by
  have hmode : s.mode = 0o040000 ||| mode.mode := hs
  rw [isLink, hmode, decide_eq_false_iff_not]
  intro heq
  exact absurd (testBit_type heq 14 (by decide) (by decide)) (by decide)

/-- What says that it is a directory is one, whatever its permissions. -/
theorem directory_of_isDirectory {s : Status} {node : Node} (hs : s.mode = modeOf node)
    (hdir : s.isDirectory = true) : ∃ mode, node = .directory mode := by
  rw [isDirectory, decide_eq_true_eq] at hdir
  cases node with
  | directory mode => exact ⟨mode, rfl⟩
  | file mode content =>
      have hfile : s.mode = 0o100000 ||| mode.mode := hs
      rw [hfile] at hdir
      exact absurd (testBit_type hdir 15 (by decide) (by decide)) (by decide)
  | link target =>
      have hlink : s.mode = 0o120000 ||| (⟨0o777⟩ : Permissions).mode := hs
      rw [hlink] at hdir
      exact absurd hdir (by decide)

/-- A directory says so, where its permissions hold no bits of a type. -/
theorem isDirectory_of_directory {s : Status} {mode : Permissions}
    (hs : s.mode = modeOf (.directory mode)) (hmode : mode.mode &&& typeMask = 0) :
    s.isDirectory = true := by
  have hs' : s.mode = 0o040000 ||| mode.mode := hs
  have hor : (0o040000 ||| mode.mode) &&& typeMask
      = (0o040000 &&& typeMask) ||| (mode.mode &&& typeMask) :=
    UInt32.toBitVec_inj.mp (by simp [BitVec.and_or_distrib_right])
  rw [isDirectory, hs', decide_eq_true_eq, hor, hmode]
  decide

end Status

end Conformance
