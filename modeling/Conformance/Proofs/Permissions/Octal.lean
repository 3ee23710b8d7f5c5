import Conformance.Permissions
import Conformance.Proofs.Text.Numerals

/-!
# Permissions in octal

A mode is written in octal digits with the mark `0o` in front of them or
without it. The reader takes more: the mark is taken off as often as it
comes, and one plus sign may stand between the marks and the digits
(`ofOctal_eq_ok`). No two of these forms are the same text
(`OctalForm.unique`). So it is the texts with a second mark or a plus sign
that are accepted beyond the notation, and no others.
-/

namespace Conformance.Permissions

/-! ## Digits -/

/-- A digit from zero to seven. -/
def IsOctal (c : Char) : Prop := '0' ≤ c ∧ c ≤ '7'

/-- The value of octal digits, of which the first counts most. -/
def octalValue (digits : List Char) : Nat :=
  Nat.ofDigits 8 (digits.reverse.map fun c => c.toNat - '0'.toNat)

theorem isOctal_iff {c : Char} : Digits.IsDigit 8 c ↔ IsOctal c := by
  have h0 : '0'.toNat = 48 := rfl
  have h7 : '7'.toNat = 55 := rfl
  rw [Digits.IsDigit, IsOctal, Digits.char_le_iff, Digits.char_le_iff, h0, h7]
  omega

theorem natural?_octal {digits : List Char} {n : Nat} :
    Digits.natural? 8 digits = some n
      ↔ digits ≠ [] ∧ (∀ c ∈ digits, IsOctal c) ∧ octalValue digits = n := by
  rw [Digits.natural?_eq_some (by decide)]
  simp only [isOctal_iff]
  rfl

/-! ## Signs and marks -/

/-- A plus sign, or none. -/
def sign (plus : Bool) : List Char := if plus then ['+'] else []

/-- The mark `0o` some number of times. -/
def octalMarks (n : Nat) : List Char := (List.replicate n ['0', 'o']).flatten

theorem not_octal_plus : ¬ IsOctal '+' := by
  simp [IsOctal]

theorem unsigned?_octal {bound n : Nat} {cs : List Char} :
    Digits.unsigned? 8 bound cs = some n ↔ n < bound ∧ ∃ plus digits,
      cs = sign plus ++ digits ∧ Digits.natural? 8 digits = some n := by
  rw [Digits.unsigned?_eq_some (by decide)]
  refine and_congr_right fun _ => ⟨?_, ?_⟩
  · rintro ⟨digits, heq | heq, h⟩
    · exact ⟨false, digits, heq, h⟩
    · exact ⟨true, digits, heq, h⟩
  · rintro ⟨plus, digits, heq, h⟩
    cases plus with
    | false => exact ⟨digits, .inl heq, h⟩
    | true => exact ⟨digits, .inr heq, h⟩

theorem octalMarks_succ (n : Nat) : octalMarks (n + 1) = '0' :: 'o' :: octalMarks n :=
  rfl

theorem dropMarks_append (cs : List Char) : ∀ n, dropMarks (octalMarks n ++ cs) = dropMarks cs
  | 0 => rfl
  | n + 1 => dropMarks_append cs n

theorem exists_octalMarks (cs : List Char) : ∃ n, cs = octalMarks n ++ dropMarks cs := by
  fun_induction dropMarks cs with
  | case1 r ih =>
      obtain ⟨n, hr⟩ := ih
      exact ⟨n + 1, by rw [octalMarks_succ, List.cons_append, List.cons_append, ← hr]⟩
  | case2 cs _ => exact ⟨0, rfl⟩

theorem dropMarks_of_not_mem {cs : List Char} (h : 'o' ∉ cs) : dropMarks cs = cs := by
  unfold dropMarks
  split
  · simp at h
  · rfl

/-! ## Modes -/

/-- A mode in one or more octal digits, behind a number of marks and
perhaps a plus sign. -/
def OctalForm (text : String) (marks : Nat) (plus : Bool) (mode : Nat) : Prop :=
  mode ≤ 0o7777 ∧ ∃ digits, digits ≠ [] ∧ (∀ c ∈ digits, IsOctal c) ∧ octalValue digits = mode
    ∧ text.toList = octalMarks marks ++ (sign plus ++ digits)

/-- The notation of a mode in octal: digits, with the mark or without
it. -/
def OctalNotation (text : String) (mode : Nat) : Prop :=
  ∃ marks ≤ 1, OctalForm text marks false mode

theorem not_mem_digits {digits : List Char} (h : ∀ c ∈ digits, IsOctal c) {c : Char}
    (hc : ¬ IsOctal c) : c ∉ digits :=
  fun hmem => hc (h c hmem)

theorem not_mem_signed {digits : List Char} (h : ∀ c ∈ digits, IsOctal c) (plus : Bool) :
    'o' ∉ sign plus ++ digits := by
  have hdigits : 'o' ∉ digits := not_mem_digits h (by simp [IsOctal])
  cases plus <;> simpa [sign]

/-- The letter of the mark stands nowhere else. -/
theorem count_octalMarks {cs : List Char} (h : 'o' ∉ cs) :
    ∀ n, (octalMarks n ++ cs).count 'o' = n
  | 0 => List.count_eq_zero.mpr h
  | n + 1 => by
      rw [octalMarks_succ, List.cons_append, List.cons_append,
        List.count_cons_of_ne (by decide), List.count_cons_self, count_octalMarks h]

theorem mem_signed_iff {digits : List Char} (h : ∀ c ∈ digits, IsOctal c) (plus : Bool) :
    '+' ∈ sign plus ++ digits ↔ plus = true := by
  have hno : '+' ∉ digits := not_mem_digits h not_octal_plus
  cases plus <;> simp [sign, hno]

/-- A text is of one form only. -/
theorem OctalForm.unique {text : String} {marks marks' : Nat} {plus plus' : Bool}
    {mode mode' : Nat} (h : OctalForm text marks plus mode)
    (h' : OctalForm text marks' plus' mode') : marks = marks' ∧ plus = plus' ∧ mode = mode' := by
  obtain ⟨-, digits, -, hoctal, rfl, htext⟩ := h
  obtain ⟨-, digits', -, hoctal', rfl, htext'⟩ := h'
  rw [htext] at htext'
  have hmarks : marks = marks' := by
    rw [← count_octalMarks (not_mem_signed hoctal plus) marks, htext',
      count_octalMarks (not_mem_signed hoctal' plus')]
  subst hmarks
  have hsigned := List.append_cancel_left htext'
  have hplus : plus = plus' := by
    rw [Bool.eq_iff_iff, ← mem_signed_iff hoctal, hsigned, mem_signed_iff hoctal']
  subst hplus
  rw [List.append_cancel_left hsigned]
  exact ⟨rfl, rfl, rfl⟩

theorem toNat_ofMode {n : Nat} (h : n ≤ 0o7777) : (ofMode (UInt32.ofNat n)).bits.toNat = n := by
  have hmask : n &&& 0o7777 = n := by
    rw [Nat.and_two_pow_sub_one_eq_mod n 12, Nat.mod_eq_of_lt (by omega)]
  have hn : (UInt32.ofNat n).toNat = n := UInt32.toNat_ofNat_of_lt' (Nat.lt_of_le_of_lt h (by decide))
  rw [ofMode, UInt32.toNat_toUInt16, UInt32.toNat_and, hn]
  simp [hmask]
  omega

theorem ofMode_eq_iff {n : Nat} (h : n ≤ 0o7777) {p : Permissions} :
    ofMode (UInt32.ofNat n) = p ↔ n = p.bits.toNat := by
  constructor
  · rintro rfl
    exact (toNat_ofMode h).symm
  · intro hn
    exact congrArg mk (UInt16.toNat_inj.mp ((toNat_ofMode h).trans hn))

/-- **The octal reader.** A text is accepted just if it is of some form,
and read as the mode that it has there. -/
theorem ofOctal_eq_ok {text : String} {p : Permissions} :
    ofOctal text = .ok p ↔ ∃ marks plus, OctalForm text marks plus p.bits.toNat := by
  have hread : ofOctal text = .ok p ↔ ∃ n, Digits.unsigned? 8 0x100000000
      (dropMarks text.toList) = some n ∧ n ≤ 0o7777 ∧ n = p.bits.toNat := by
    unfold ofOctal
    split
    · rename_i n hn
      rw [hn]
      split
      · rename_i hle
        rw [Except.ok.injEq, ofMode_eq_iff hle]
        exact ⟨fun heq => ⟨n, rfl, hle, heq⟩, fun ⟨_, h, _, heq⟩ => (Option.some.inj h).trans heq⟩
      · rename_i hle
        refine iff_of_false (by simp) ?_
        rintro ⟨_, h, hle', -⟩
        exact hle (Option.some.inj h ▸ hle')
    · rename_i hnone
      simp [hnone]
  rw [hread]
  constructor
  · rintro ⟨_, hn, hle, rfl⟩
    obtain ⟨-, plus, digits, hdrop, hdigits⟩ := unsigned?_octal.mp hn
    obtain ⟨hne, hoctal, hvalue⟩ := natural?_octal.mp hdigits
    obtain ⟨marks, htext⟩ := exists_octalMarks text.toList
    exact ⟨marks, plus, hle, digits, hne, hoctal, hvalue, hdrop ▸ htext⟩
  · rintro ⟨marks, plus, hle, digits, hne, hoctal, hvalue, htext⟩
    have hdrop : dropMarks text.toList = sign plus ++ digits := by
      rw [htext, dropMarks_append, dropMarks_of_not_mem (not_mem_signed hoctal plus)]
    exact ⟨_, unsigned?_octal.mpr ⟨by omega, plus, digits, hdrop,
      natural?_octal.mpr ⟨hne, hoctal, hvalue⟩⟩, hle, rfl⟩

/-- **Octal modes.** The reader accepts the octal forms of modes. So it
accepts the notation, and nothing else, of just those texts that are in no
form with a second mark or with a plus sign. -/
theorem ofOctal_notation_iff (text : String) :
    (∀ p, ofOctal text = .ok p ↔ ∃ marks plus, OctalForm text marks plus p.bits.toNat)
      ∧ ((∀ p, ofOctal text = .ok p ↔ OctalNotation text p.bits.toNat)
        ↔ ∀ marks plus mode, OctalForm text marks plus mode → marks ≤ 1 ∧ plus = false) := by
  refine ⟨fun p => ofOctal_eq_ok, ?_⟩
  simp only [ofOctal_eq_ok]
  constructor
  · intro h marks plus mode hform
    have hmode : (ofMode (UInt32.ofNat mode)).bits.toNat = mode := toNat_ofMode hform.1
    obtain ⟨marks', hle, hform'⟩ := (h (ofMode (UInt32.ofNat mode))).mp
      ⟨marks, plus, by rwa [hmode]⟩
    obtain ⟨rfl, rfl, -⟩ := hform.unique hform'
    exact ⟨hle, rfl⟩
  · intro h p
    constructor
    · rintro ⟨marks, plus, hform⟩
      obtain ⟨hle, rfl⟩ := h marks plus _ hform
      exact ⟨marks, hle, hform⟩
    · rintro ⟨marks, -, hform⟩
      exact ⟨marks, false, hform⟩

/-- The digits `644` behind two marks, and behind a plus sign. -/
theorem ofOctal_beyond_notation :
    (ofOctal "0o0o644" = .ok ⟨0o644⟩ ∧ ∀ mode, ¬ OctalNotation "0o0o644" mode)
      ∧ (ofOctal "+644" = .ok ⟨0o644⟩ ∧ ∀ mode, ¬ OctalNotation "+644" mode) := by
  have hdigits : ∀ c ∈ "644".toList, IsOctal c := by simp [IsOctal]
  have hmarks : OctalForm "0o0o644" 2 false 0o644 :=
    ⟨by decide, "644".toList, by decide, hdigits, by decide, by decide⟩
  have hplus : OctalForm "+644" 0 true 0o644 :=
    ⟨by decide, "644".toList, by decide, hdigits, by decide, by decide⟩
  refine ⟨⟨by decide, ?_⟩, by decide, ?_⟩
  · rintro mode ⟨marks, hle, hform⟩
    obtain ⟨rfl, -⟩ := hmarks.unique hform
    exact absurd hle (by decide)
  · rintro mode ⟨marks, -, hform⟩
    obtain ⟨-, hsign, -⟩ := hplus.unique hform
    cases hsign

end Conformance.Permissions
