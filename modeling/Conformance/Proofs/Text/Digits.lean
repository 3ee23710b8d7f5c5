import Conformance.Text.Digits

/-!
# The digits of a number

A natural number written in any base up to sixteen is read as that number
(`extend?_toDigits`), so its digits tell it (`toDigits_inj`). In base ten
no digit follows a zero at its start (`length_toDigits_of_zero`).
-/

namespace Conformance.Digits

/-! ## Any base -/

theorem extend?_append (base : Nat) : ∀ (n : Nat) (cs ds : List Char),
    extend? base n (cs ++ ds) = (extend? base n cs).bind fun m => extend? base m ds
  | _, [], _ => rfl
  | n, c :: cs, ds => by
      rw [List.cons_append, extend?, extend?]
      split
      · split
        · exact extend?_append base _ cs ds
        · rfl
      · rfl

theorem value?_digitChar : ∀ d < 16, value? (Nat.digitChar d) = some d := by
  decide

/-- A number written in any base up to sixteen is read as that number. -/
theorem extend?_toDigits {base : Nat} (hbase : 1 < base) (hle : base ≤ 16) (n : Nat) :
    extend? base 0 (Nat.toDigits base n) = some n := by
  induction n using Nat.strongRecOn with
  | ind n ih =>
      rcases Nat.lt_or_ge n base with hlt | hge
      · rw [Nat.toDigits_of_lt_base hlt]
        simp [extend?, value?_digitChar n (by omega), hlt]
      · have hless : n / base < n := Nat.div_lt_self (by omega) hbase
        have hdigit : n % base < base := Nat.mod_lt n (by omega)
        rw [Nat.toDigits_of_base_le hbase hge, extend?_append, ih _ hless]
        simp [extend?, value?_digitChar _ (Nat.lt_of_lt_of_le hdigit hle), hdigit,
          Nat.div_add_mod']

theorem toDigits_inj {base : Nat} (hbase : 1 < base) (hle : base ≤ 16) {n m : Nat}
    (h : Nat.toDigits base n = Nat.toDigits base m) : n = m := by
  have hn := extend?_toDigits hbase hle n
  rw [h, extend?_toDigits hbase hle m] at hn
  exact (Option.some.inj hn).symm

theorem isSome_value?_of_extend? {base : Nat} : ∀ {n m : Nat} {cs : List Char},
    extend? base n cs = some m → ∀ c ∈ cs, (value? c).isSome = true
  | _, _, [], _ => by simp
  | n, m, c :: cs, h => by
      rw [extend?] at h
      split at h
      · rename_i d hd
        split at h
        · exact List.forall_mem_cons.mpr ⟨by simp [hd], isSome_value?_of_extend? h⟩
        · cases h
      · cases h

theorem natural?_toDigits (n : Nat) : natural? 10 (Nat.toDigits 10 n) = some n := by
  have hne : (Nat.toDigits 10 n).isEmpty = false := by simp [Nat.toDigits_ne_nil]
  rw [natural?, hne, if_neg (by simp), extend?_toDigits (by decide) (by decide)]

/-! ## Base ten -/

theorem isDecimal_iff {c : Char} : isDecimal c = true ↔ c.isDigit = true := by
  simp [isDecimal, Char.isDigit, Char.le_def]

theorem isDecimal_of_mem_toDigits {c : Char} {n : Nat} (h : c ∈ Nat.toDigits 10 n) :
    isDecimal c = true :=
  isDecimal_iff.mpr (Nat.isDigit_of_mem_toDigits (by decide) (by decide) h)

theorem toDigits_eq_cons (n : Nat) :
    ∃ c cs, Nat.toDigits 10 n = c :: cs ∧ isDecimal c = true := by
  cases hdigits : Nat.toDigits 10 n with
  | nil => exact absurd hdigits Nat.toDigits_ne_nil
  | cons c cs => exact ⟨c, cs, rfl, isDecimal_of_mem_toDigits (n := n) (by simp [hdigits])⟩

/-- Only zero starts with a zero. -/
theorem eq_zero_of_head? : ∀ {n : Nat}, (Nat.toDigits 10 n).head? = some '0' → n = 0 := by
  intro n
  induction n using Nat.strongRecOn with
  | ind n ih =>
      intro h
      by_cases hlt : n < 10
      · rw [Nat.toDigits_of_lt_base hlt] at h
        simpa using h
      · have hle : 10 ≤ n := Nat.le_of_not_lt hlt
        rw [Nat.toDigits_of_base_le (by decide) hle] at h
        have hhead : (Nat.toDigits 10 (n / 10)).head? = some '0' := by
          obtain ⟨c, cs, hdigits, -⟩ := toDigits_eq_cons (n / 10)
          simpa [hdigits] using h
        have hzero := ih (n / 10) (by omega) hhead
        omega

theorem length_toDigits_of_zero {n : Nat} (h : (Nat.toDigits 10 n).head? = some '0') :
    (Nat.toDigits 10 n).length = 1 := by
  rw [eq_zero_of_head? h, Nat.toDigits_zero]
  rfl

end Conformance.Digits
