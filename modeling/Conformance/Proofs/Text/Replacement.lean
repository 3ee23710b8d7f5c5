import Conformance.Text.Substitute

/-!
# Replacing a text wherever it occurs

A scan that replaces a pattern does one of two things: it stands before an
occurrence, puts in what is new and goes on behind it, or it keeps a
letter. These two steps are all that is needed to follow it
(`replaceChars_occurrence`, `replaceChars_letter`).
-/

namespace Conformance.Text

theorem replaceChars_skip (pattern new skipped rest : List Char) :
    replaceChars pattern new skipped.length (skipped ++ rest)
      = replaceChars pattern new 0 rest := by
  induction skipped with
  | nil => rfl
  | cons c r ih => exact ih

theorem replaceChars_occurrence {pattern : List Char} (hne : pattern ≠ []) (new rest : List Char) :
    replaceChars pattern new 0 (pattern ++ rest) = new ++ replaceChars pattern new 0 rest := by
  cases pattern with
  | nil => exact absurd rfl hne
  | cons c r =>
      have hhere : (c :: r).isPrefixOf (c :: (r ++ rest)) = true :=
        List.isPrefixOf_iff_prefix.mpr (List.prefix_append (c :: r) rest)
      rw [List.cons_append, replaceChars, if_pos hhere]
      exact congrArg (new ++ ·) (replaceChars_skip (c :: r) new r rest)

theorem replaceChars_letter {pattern rest : List Char} {c : Char} (new : List Char)
    (h : ¬ pattern <+: c :: rest) :
    replaceChars pattern new 0 (c :: rest) = c :: replaceChars pattern new 0 rest := by
  have hhere : ¬ pattern.isPrefixOf (c :: rest) = true := fun hprefix =>
    h (List.isPrefixOf_iff_prefix.mp hprefix)
  rw [replaceChars, if_neg hhere]

theorem occursIn_iff {needle : List Char} (text : List Char) :
    occursIn needle text = true ↔ needle <:+: text := by
  induction text with
  | nil => simp [occursIn]
  | cons c r ih =>
      rw [occursIn, Bool.or_eq_true, List.isPrefixOf_iff_prefix, ih, List.infix_cons_iff]

end Conformance.Text
