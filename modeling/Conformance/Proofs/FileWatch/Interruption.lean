import Conformance.Proofs.FileWatch.Passes

/-!
# Passes that break off

A pass goes on as long as every state can be reported. It breaks off at the
first watch with a state that cannot (`Watch.Unreportable`), be it for the
path or for a time: the watches before it remember what was found, and
nobody is told (`Poller.poll_completes_iff`). A later pass compares with
what they remember, so what was new about them is lost for good
(`Poller.poll_breaks_off`).
-/

namespace Conformance.FileWatch

namespace Poller

/-- **Passes.** A pass reports to the end just if every state can be
reported. Else it tells nothing, but the watches before the first one that
is stuck have taken the new states for told. -/
theorem poll_completes_iff (p : Poller) (now : Instant) (hosts : Nat → Host) :
    ((p.poll now hosts).2.isSome = true
        ↔ ∀ (n : Nat) (w : Watch), p.watches[n]? = some w → ¬ w.Unreportable (hosts n))
      ∧ ((p.poll now hosts).2 = none → ∃ before w after, p.watches = before ++ w :: after
        ∧ (∀ (n : Nat) (v : Watch), before[n]? = some v → ¬ v.Unreportable (hosts n))
        ∧ w.Unreportable (hosts before.length)
        ∧ (p.poll now hosts).1 = { p with watches := seen hosts 0 before ++ w :: after }) := by
  rcases reported_or_stuck hosts p.watches 0 with
    hall | ⟨before, w, after, hwatches, hbefore, hstuck⟩
  · rw [poll_of_reported hall now]
    exact ⟨⟨fun _ => reported_iff.mp hall, fun _ => rfl⟩,
      fun hnone => absurd hnone (Option.some_ne_none _)⟩
  · have hmem : p.watches[before.length]? = some w := by
      rw [hwatches]
      simp
    rw [poll_of_stuck hwatches hbefore hstuck now]
    rw [Nat.zero_add] at hstuck
    refine ⟨⟨fun hsome => absurd hsome Bool.false_ne_true, fun hall => ?_⟩, fun _ => ?_⟩
    · exact absurd hstuck (hall _ w hmem)
    · exact ⟨before, w, after, hwatches, reported_iff.mp hbefore, hstuck, rfl⟩

end Poller

namespace NoText

/-- A name that is no text. -/
def file : Bytes := [0xFF]

/-- A watch of a file, and one of a file whose name is no text. -/
def poller : Poller :=
  (Poller.empty.watch (Path.ofText "/a") []).watch (Utf8.encode "/" ++ file) []

/-- The poller after a pass that finds both. -/
def interrupted : Poller := (poller.poll ⟨0, 0⟩ fun _ => filesAtRoot [Utf8.encode "a", file]).1

end NoText

/-- The pass breaks off at the second watch. The first takes its state for
told, and when the other file is gone only that is told. -/
theorem Poller.poll_breaks_off :
    (NoText.poller.poll ⟨0, 0⟩ fun _ => filesAtRoot [Utf8.encode "a", NoText.file]).2 = none
      ∧ NoText.interrupted.watches.map (·.last.isSome) = [true, false]
      ∧ (NoText.interrupted.poll ⟨1, 0⟩ fun _ => filesAtRoot [Utf8.encode "a"]).2.map List.length
        = some 1 := by
  refine ⟨?_, ?_, ?_⟩
  · cbv
  · cbv
  · cbv

end Conformance.FileWatch
