import Mathlib.Data.List.TakeWhile
import Conformance.Text.Blank

/-!
# Runs of characters

A run of characters of one sort ends at the first character of another
one, so texts that begin with runs of the same sort agree in the run and
in what comes after it (`run_append_inj`). Where blanks are taken off the
ends of a text, what is left is the text between them, whatever blanks are
inside (`trimChars_between`, `exists_blanks`).
-/

namespace Conformance.Text

theorem run_append_inj {p : Char → Bool} {x y r s : List Char} (hx : ∀ c ∈ x, p c = true)
    (hy : ∀ c ∈ y, p c = true) (hr : ∀ c, r.head? = some c → p c = false)
    (hs : ∀ c, s.head? = some c → p c = false) (h : x ++ r = y ++ s) : x = y ∧ r = s := by
  have hrun : ∀ {x r : List Char}, (∀ c ∈ x, p c = true) →
      (∀ c, r.head? = some c → p c = false) → (x ++ r).takeWhile p = x := by
    intro x r hx hr
    rw [List.takeWhile_append_of_pos hx]
    cases r with
    | nil => simp
    | cons c r => simp [hr c rfl]
  have hxy : x = y := by rw [← hrun hx hr, h, hrun hy hs]
  subst hxy
  exact ⟨rfl, List.append_cancel_left h⟩

theorem dropWhile_eq_self {p : Char → Bool} {cs : List Char}
    (h : ∀ c, cs.head? = some c → p c = false) : cs.dropWhile p = cs := by
  cases cs with
  | nil => rfl
  | cons c r => exact List.dropWhile_cons_of_neg (by simp [h c rfl])

/-- What is left of a text without the blanks around it. -/
theorem trimChars_between {before core after : List Char}
    (hbefore : ∀ c ∈ before, isBlank c = true) (hafter : ∀ c ∈ after, isBlank c = true)
    (hne : core ≠ []) (hfirst : ∀ c, core.head? = some c → isBlank c = false)
    (hlast : ∀ c, core.getLast? = some c → isBlank c = false) :
    trimChars (before ++ core ++ after) = core := by
  have hstart : ∀ c, (core ++ after).head? = some c → isBlank c = false := by
    intro c hc
    obtain ⟨c', r, rfl⟩ := List.exists_cons_of_ne_nil hne
    exact hfirst c hc
  rw [trimChars, List.append_assoc, List.dropWhile_append_of_pos hbefore,
    dropWhile_eq_self hstart, List.reverse_append,
    List.dropWhile_append_of_pos fun c hc => hafter c (List.mem_reverse.mp hc),
    dropWhile_eq_self (by simpa using hlast), List.reverse_reverse]

/-- Only blanks are taken off a text. -/
theorem exists_blanks (cs : List Char) : ∃ before after, cs = before ++ trimChars cs ++ after
    ∧ (∀ c ∈ before, isBlank c = true) ∧ ∀ c ∈ after, isBlank c = true := by
  refine ⟨cs.takeWhile isBlank, ((cs.dropWhile isBlank).reverse.takeWhile isBlank).reverse, ?_,
    fun c hc => List.mem_takeWhile_imp hc,
    fun c hc => List.mem_takeWhile_imp (List.mem_reverse.mp hc)⟩
  rw [trimChars, List.append_assoc, ← List.reverse_append, List.takeWhile_append_dropWhile,
    List.reverse_reverse, List.takeWhile_append_dropWhile]

theorem trimChars_eq_self {cs : List Char} (hfirst : ∀ c, cs.head? = some c → isBlank c = false)
    (hlast : ∀ c, cs.getLast? = some c → isBlank c = false) : trimChars cs = cs := by
  rw [trimChars, dropWhile_eq_self hfirst, dropWhile_eq_self (by simpa using hlast),
    List.reverse_reverse]

end Conformance.Text
