/-!
# Clocks

A wait looks at a clock again and again. All that counts of the clock is what it shows at each look:
it never goes back, and it passes every time sooner or later.
-/

namespace Conformance

/-- A clock, by what it shows at each look, in milliseconds. -/
structure Clock where
  /-- What the clock shows at a look. -/
  reading : Nat → Nat
  /-- A later look never shows an earlier time. -/
  monotone : ∀ {i j : Nat}, i ≤ j → reading i ≤ reading j
  /-- Every time is reached. -/
  unbounded : ∀ t : Nat, ∃ n : Nat, t ≤ reading n

namespace Clock

/-- A clock that goes on by the same number of milliseconds, at least one, between any two looks. -/
def steady (step : Nat) : Clock where
  reading n := n * max step 1
  monotone h := Nat.mul_le_mul_right _ h
  unbounded t := ⟨t, Nat.le_mul_of_pos_right t (by omega)⟩

/-- A look at which a time has been reached. -/
noncomputable def lookAfter (c : Clock) (t : Nat) : Nat := (c.unbounded t).choose

/-- As long as a time is not reached, that look is still to come. -/
theorem lt_lookAfter {c : Clock} {t n : Nat} (h : ¬ t ≤ c.reading n) : n < c.lookAfter t := by
  refine Nat.lt_of_not_le fun le => h ?_
  exact Nat.le_trans (c.unbounded t).choose_spec (c.monotone le)

end Clock

end Conformance
