import Mathlib.Data.Nat.Digits.Lemmas
import Mathlib.Tactic.Ring
import Conformance.Text.Digits

/-!
# Numerals

In a base up to ten the digits are the characters from zero on, and one or
more of them are read as the number that they are written for
(`natural?_eq_some`). A numeral may have a plus sign in front
(`unsigned?_eq_some`); none of its characters but the digits and that sign
is left.
-/

namespace Conformance.Digits

/-- A digit of a base up to ten. -/
def IsDigit (base : Nat) (c : Char) : Prop := '0' ≤ c ∧ c.toNat - '0'.toNat < base

/-- The value of digits, of which the first counts most. -/
def valueOf (base : Nat) (digits : List Char) : Nat :=
  Nat.ofDigits base (digits.reverse.map fun c => c.toNat - '0'.toNat)

theorem valueOf_cons (base : Nat) (c : Char) (digits : List Char) :
    valueOf base (c :: digits)
      = (c.toNat - '0'.toNat) * base ^ digits.length + valueOf base digits := by
  simp only [valueOf, List.reverse_cons, List.map_append, List.map_cons, List.map_nil,
    Nat.ofDigits_append, Nat.ofDigits_singleton, List.length_map, List.length_reverse]
  ring

theorem char_le_iff {a b : Char} : a ≤ b ↔ a.toNat ≤ b.toNat := by
  rw [Char.le_def, UInt32.le_iff_toNat_le]
  rfl

section

variable {base : Nat} (hbase : base ≤ 10)

include hbase

theorem value?_iff {c : Char} {d : Nat} :
    value? c = some d ∧ d < base ↔ IsDigit base c ∧ d = c.toNat - '0'.toNat := by
  have h0 : '0'.toNat = 48 := rfl
  have h9 : '9'.toNat = 57 := rfl
  unfold value? IsDigit
  simp only [Bool.and_eq_true, decide_eq_true_eq, char_le_iff, h0, h9]
  split
  · rw [Option.some.injEq]
    omega
  · constructor
    · -- The letters have a value of ten at least.
      rintro ⟨h, hd⟩
      split at h
      · obtain rfl := Option.some.inj h
        omega
      · split at h
        · obtain rfl := Option.some.inj h
          omega
        · cases h
    · rintro ⟨h, -⟩
      omega

theorem extend?_eq_some : ∀ {digits : List Char} {n m : Nat},
    extend? base n digits = some m
      ↔ (∀ c ∈ digits, IsDigit base c) ∧ n * base ^ digits.length + valueOf base digits = m
  | [], n, m => by simp [extend?, valueOf]
  | c :: cs, n, m => by
      rw [List.forall_mem_cons, valueOf_cons, extend?]
      by_cases hc : IsDigit base c
      · obtain ⟨hvalue, hlt⟩ := (value?_iff hbase).mpr ⟨hc, rfl⟩
        rw [hvalue]
        dsimp only
        rw [if_pos hlt, extend?_eq_some, and_iff_right hc, List.length_cons, Nat.pow_succ]
        refine and_congr_right fun _ => ?_
        rw [Nat.add_mul, Nat.mul_assoc n, Nat.mul_comm base, Nat.add_assoc]
      · refine iff_of_false ?_ fun h => hc h.1.1
        split
        · split
          · rename_i d hd hlt
            exact absurd ((value?_iff hbase).mp ⟨hd, hlt⟩).1 hc
          · simp
        · simp

theorem natural?_eq_some {digits : List Char} {n : Nat} :
    natural? base digits = some n
      ↔ digits ≠ [] ∧ (∀ c ∈ digits, IsDigit base c) ∧ valueOf base digits = n := by
  cases digits with
  | nil => simp [natural?]
  | cons c cs => simp [natural?, extend?_eq_some hbase]

theorem unsigned?_eq_some {bound n : Nat} {cs : List Char} :
    unsigned? base bound cs = some n ↔ n < bound ∧ ∃ digits,
      (cs = digits ∨ cs = '+' :: digits) ∧ natural? base digits = some n := by
  unfold unsigned?
  simp only [Option.filter_eq_some_iff, decide_eq_true_eq]
  rw [and_comm]
  refine and_congr_right fun _ => ?_
  split
  · rename_i r
    constructor
    · exact fun h => ⟨r, .inr rfl, h⟩
    · rintro ⟨digits, rfl | heq, h⟩
      · -- The sign is no digit.
        obtain ⟨hzero, -⟩ := ((natural?_eq_some hbase).mp h).2.1 '+' (List.mem_cons_self ..)
        exact absurd hzero (by decide)
      · obtain ⟨-, rfl⟩ := List.cons.inj heq
        exact h
  · rename_i hno
    constructor
    · exact fun h => ⟨_, .inl rfl, h⟩
    · rintro ⟨digits, rfl | rfl, h⟩
      · exact h
      · exact absurd rfl (hno digits)

end

end Conformance.Digits
