import Conformance.Expectation.Attributes
import Conformance.Proofs.Capture.Snapshots

/-!
# Checking a snapshot against what is expected

The checks of a file are of different kinds, so sorting them by kind
leaves no choice (`AttributeExpectations.of_perm`): whatever order they
were listed in, a snapshot is checked in the order of the kinds. It is
right if it passes every check, and otherwise the mismatch is that of the
first kind that it fails (`verify_eq_some_iff`). A mismatch shows what the
snapshot holds; that nothing was captured it says only of a kind that the
snapshot does not hold (`Attribute.text_ne`).
-/

namespace Conformance

/-! ## Texts of attributes -/

/-- What a mismatch says of a kind that the snapshot does not hold. -/
def AttributeMismatch.notCaptured : String := "<not captured>"

/-- No attribute is shown like one that was not captured. -/
theorem Attribute.text_ne (a : Attribute) : a.text ≠ AttributeMismatch.notCaptured := by
  intro h
  have hchars := congrArg String.toList h
  cases a with
  | fileType type => cases type <;> exact absurd h (by decide)
  | permissions perms =>
      have hlength := congrArg List.length hchars
      simp [text, Permissions.symbolic, Permissions.classes, Permissions.UserClass.chars,
        AttributeMismatch.notCaptured] at hlength
  | identity owner =>
      have hlast : (identity owner).text.toList.getLast? = some ')' := by
        simp only [text, String.toList_append]
        exact List.getLast?_concat
      rw [hchars] at hlast
      exact absurd hlast (by decide)
  | timestamp time =>
      have hlast := congrArg List.getLast? hchars
      simp [text, AttributeMismatch.notCaptured] at hlast
  | acl entries =>
      have hfirst := congrArg List.head? hchars
      simp [text, bracketed, AttributeMismatch.notCaptured] at hfirst

/-! ## One check -/

/-- The snapshot holds an attribute of the kind of the check, which the
check accepts. -/
def AttributeCheck.PassedBy (c : AttributeCheck) (s : Snapshot) : Prop :=
  ∃ a, s.get? c.kind = some a ∧ c.accepts a = true

namespace AttributeExpectations

variable {s : Snapshot} {c : AttributeCheck}

theorem mismatch?_eq_none_iff : mismatch? s c = none ↔ c.PassedBy s := by
  unfold mismatch? AttributeCheck.PassedBy
  cases s.get? c.kind with
  | none => simp
  | some a => simp

theorem mismatch?_eq_some_iff {m : AttributeMismatch} : mismatch? s c = some m ↔
    ¬ c.PassedBy s ∧ m.kind = c.kind ∧ m.expected = c.text
      ∧ m.actual = ((s.get? c.kind).map Attribute.text).getD AttributeMismatch.notCaptured := by
  obtain ⟨kind, expected, actual⟩ := m
  unfold mismatch? AttributeCheck.PassedBy
  cases s.get? c.kind with
  | none =>
      simp only [Option.some.injEq, AttributeMismatch.mk.injEq, Option.map_none, Option.getD_none,
        AttributeMismatch.notCaptured, reduceCtorEq, false_and, exists_false, not_false_eq_true,
        true_and, @eq_comm _ c.kind, @eq_comm _ c.text, @eq_comm _ "<not captured>"]
  | some a =>
      by_cases ha : c.accepts a = true
      · simp [ha]
      · simp only [ha, Bool.false_eq_true, if_false, Option.some.injEq, AttributeMismatch.mk.injEq,
          Option.map_some, Option.getD_some, exists_eq_left', not_false_eq_true, true_and,
          @eq_comm _ c.kind, @eq_comm _ c.text, @eq_comm _ a.text]

/-! ## All checks -/

variable {checks : List AttributeCheck}

theorem mem_of : c ∈ (of checks).checks ↔ c ∈ checks :=
  List.mem_mergeSort

/-- Checks of different kinds are sorted without a tie. -/
theorem of_ordered (hdistinct : (checks.map AttributeCheck.kind).Nodup) :
    (of checks).checks.Pairwise (·.kind.rank < ·.kind.rank) := by
  have hsorted : (of checks).checks.Pairwise
      fun a b => decide (a.kind.rank ≤ b.kind.rank) = true :=
    List.pairwise_mergeSort (fun a b c hab hbc => by simp at *; omega)
      (fun a b => by simp; omega) checks
  have hkinds : (of checks).checks.Pairwise fun a b => a.kind ≠ b.kind :=
    (List.pairwise_map.mp hdistinct).perm (List.mergeSort_perm ..).symm Ne.symm
  refine hsorted.imp₂ (fun a b hle hne => ?_) hkinds
  exact Nat.lt_of_le_of_ne (of_decide_eq_true hle) fun heq =>
    hne (AttributeKind.rank_inj.mp heq)

/-- **Order.** It does not matter in which order checks of different kinds
are listed. -/
theorem of_perm (hdistinct : (checks.map AttributeCheck.kind).Nodup)
    {checks' : List AttributeCheck} (hperm : checks.Perm checks') : of checks = of checks' := by
  have hdistinct' : (checks'.map AttributeCheck.kind).Nodup :=
    (hperm.map _).nodup_iff.mp hdistinct
  have hsame : (of checks).checks.Perm (of checks').checks :=
    (List.mergeSort_perm ..).trans (hperm.trans (List.mergeSort_perm ..).symm)
  have heq := hsame.eq_of_pairwise
    (fun _ _ _ _ hab hba => absurd hab (Nat.lt_asymm hba))
    (of_ordered hdistinct) (of_ordered hdistinct')
  exact congrArg AttributeExpectations.mk heq

theorem mem_kinds {k : AttributeKind} :
    k ∈ (of checks).kinds ↔ ∃ c ∈ checks, c.kind = k := by
  simp [kinds, AttributeKind.mem_inOrder, mem_of]

theorem verify_eq_none_iff : (of checks).verify s = none ↔ ∀ c ∈ checks, c.PassedBy s := by
  simp only [verify, List.findSome?_eq_none_iff, mismatch?_eq_none_iff, mem_of]

/-- **Mismatches.** The one that is reported is of the first kind that does
not pass. -/
theorem verify_eq_some_iff (hdistinct : (checks.map AttributeCheck.kind).Nodup)
    {m : AttributeMismatch} : (of checks).verify s = some m ↔
      ∃ c ∈ checks, (¬ c.PassedBy s ∧ m.kind = c.kind ∧ m.expected = c.text
          ∧ m.actual = ((s.get? c.kind).map Attribute.text).getD AttributeMismatch.notCaptured)
        ∧ ∀ c' ∈ checks, c'.kind.rank < c.kind.rank → c'.PassedBy s := by
  simp only [verify, List.findSome?_eq_some_iff, exists_split_iff (of_ordered hdistinct),
    mismatch?_eq_some_iff, mismatch?_eq_none_iff, mem_of]

/-- **Verification.** Whatever order checks of different kinds are listed
in, a snapshot is right just if it passes them all, and what is wrong with
it otherwise is the first kind that it fails. Of a snapshot that was
captured for the checks, the mismatch shows what was captured. -/
theorem verify_listed (hdistinct : (checks.map AttributeCheck.kind).Nodup) :
    (∀ s, (of checks).verify s = none ↔ ∀ c ∈ checks, c.PassedBy s)
      ∧ (∀ s m, (of checks).verify s = some m ↔
        ∃ c ∈ checks, (¬ c.PassedBy s ∧ m.kind = c.kind ∧ m.expected = c.text
            ∧ m.actual = ((s.get? c.kind).map Attribute.text).getD AttributeMismatch.notCaptured)
          ∧ ∀ c' ∈ checks, c'.kind.rank < c.kind.rank → c'.PassedBy s)
      ∧ (∀ checks', checks.Perm checks' → (∀ s, (of checks').verify s = (of checks).verify s)
        ∧ (of checks').kinds = (of checks).kinds ∧ (of checks').describe = (of checks).describe)
      ∧ ∀ (h : Host) path s, h.capture path (of checks).kinds = .ok s →
        ∀ m, (of checks).verify s = some m → m.actual ≠ AttributeMismatch.notCaptured := by
  refine ⟨fun s => verify_eq_none_iff, fun s m => verify_eq_some_iff hdistinct,
    fun checks' hperm => ?_, fun h path s hs m hm => ?_⟩
  · rw [of_perm hdistinct hperm]
    exact ⟨fun _ => rfl, rfl, rfl⟩
  · obtain ⟨c, hc, ⟨-, -, -, hactual⟩, -⟩ := (verify_eq_some_iff hdistinct).mp hm
    obtain ⟨a, ha, -⟩ := Host.exists_get?_of_capture hs (mem_kinds.mpr ⟨c, hc, rfl⟩)
    rw [hactual, ha]
    exact a.text_ne

end AttributeExpectations

namespace TwoWrong

/-- Checks of a list, a time and an owner, of which the owner is right. -/
def checks : List AttributeCheck :=
  [.acl [], .timestamp .modify 0, .identity .user none (some "alice")]

theorem capture_eq :
    UnknownGroup.host.capture UnknownGroup.file (AttributeExpectations.of checks).kinds
      = .ok ⟨UnknownGroup.file, [UnknownGroup.owner, UnknownGroup.time, UnknownGroup.list]⟩ := by
  cbv

def mismatch : AttributeMismatch := ⟨.timestamp .modify, "0ms", "-500ms"⟩

end TwoWrong

/-- The time is the first that is wrong, although the list was listed
first. -/
theorem AttributeExpectations.verify_listed_twoWrong :
    (TwoWrong.checks.map AttributeCheck.kind).Nodup
      ∧ ∃ s, UnknownGroup.host.capture UnknownGroup.file (of TwoWrong.checks).kinds = .ok s
        ∧ (of TwoWrong.checks).verify s = some TwoWrong.mismatch
        ∧ (of TwoWrong.checks.reverse).verify s = some TwoWrong.mismatch
        ∧ TwoWrong.mismatch.actual ≠ AttributeMismatch.notCaptured := by
  have hdistinct : (TwoWrong.checks.map AttributeCheck.kind).Nodup := by decide
  obtain ⟨-, hmismatch, hperm, hcaptured⟩ := verify_listed hdistinct
  have hverify := (hmismatch ⟨UnknownGroup.file,
      [UnknownGroup.owner, UnknownGroup.time, UnknownGroup.list]⟩ TwoWrong.mismatch).mpr
    ⟨.timestamp .modify 0, by decide, ⟨?_, rfl, by decide, by decide⟩, fun c hc hlt => ?_⟩
  · obtain ⟨hreversed, -⟩ := hperm _ (List.reverse_perm TwoWrong.checks).symm
    exact ⟨hdistinct, _, TwoWrong.capture_eq, hverify, (hreversed _).trans hverify,
      hcaptured _ _ _ TwoWrong.capture_eq _ hverify⟩
  · rintro ⟨a, ha, haccepts⟩
    obtain rfl := Option.some.inj ha
    exact absurd haccepts (by decide)
  · simp only [TwoWrong.checks, List.mem_cons, List.not_mem_nil, or_false] at hc
    rcases hc with rfl | rfl | rfl
    · exact absurd hlt (by decide)
    · exact absurd hlt (by decide)
    · exact ⟨UnknownGroup.owner, rfl, by decide⟩

end Conformance
