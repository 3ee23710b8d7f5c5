import Mathlib.Data.String.Basic
import Conformance.Proofs.Permissions.Listing
import Conformance.Proofs.Permissions.Octal
import Conformance.Proofs.Text.Blank

/-!
# Permissions in either notation

No text is a set in both notations, for one has no digits and the other
has some. Which of them a text is taken for is decided by its size and by
whether it is all digits. This goes wrong for octal modes of nine bytes
with a mark or a plus sign, and for no other text (`parse_agrees_iff`).
-/

namespace Conformance.Permissions

variable {text : String} {p : Permissions}

/-! ## Listings -/

theorem utf8Len_of_small {cs : List Char} (h : ∀ c ∈ cs, c.utf8Size = 1) :
    String.utf8Len cs = cs.length := by
  induction cs with
  | nil => rfl
  | cons c cs ih =>
      obtain ⟨hc, hcs⟩ := List.forall_mem_cons.mp h
      rw [String.utf8Len_cons, hc, ih hcs, List.length_cons]

theorem UserClass.of_mem_chars {k : UserClass} (hk : k ∈ classes) {c : Char}
    (hc : c ∈ k.chars p) : c.utf8Size = 1 ∧ Digits.isDecimal c = false := by
  simp only [classes, List.mem_cons, List.not_mem_nil, or_false] at hk
  simp only [UserClass.chars, List.mem_cons, List.not_mem_nil, or_false] at hc
  rcases hk with rfl | rfl | rfl <;> rcases hc with rfl | rfl | rfl <;> split <;> decide

theorem of_mem_symbolic {c : Char} (hc : c ∈ p.symbolic.toList) :
    c.utf8Size = 1 ∧ Digits.isDecimal c = false := by
  rw [symbolic, String.toList_ofList] at hc
  obtain ⟨k, hk, hc⟩ := List.mem_flatMap.mp hc
  exact UserClass.of_mem_chars hk hc

theorem utf8ByteSize_symbolic (p : Permissions) : p.symbolic.utf8ByteSize = 9 := by
  have hsmall : ∀ c ∈ classes.flatMap (·.chars p), c.utf8Size = 1 := by
    intro c hc
    obtain ⟨k, hk, hc⟩ := List.mem_flatMap.mp hc
    exact (UserClass.of_mem_chars hk hc).1
  rw [symbolic, String.utf8ByteSize_ofList, utf8Len_of_small hsmall]
  simp [classes, UserClass.chars]

/-! ## Octal modes -/

theorem isDecimal_of_octal {c : Char} (hc : IsOctal c) : Digits.isDecimal c = true := by
  have hle : c ≤ '9' := Char.le_trans hc.2 (by decide)
  simp [Digits.isDecimal, hc.1, hle]

/-- All of an octal mode are digits if it has neither mark nor sign. -/
theorem OctalForm.all_isDecimal_iff {marks mode : Nat} {plus : Bool}
    (h : OctalForm text marks plus mode) :
    text.toList.all Digits.isDecimal = true ↔ marks = 0 ∧ plus = false := by
  obtain ⟨-, digits, -, hoctal, -, htext⟩ := h
  have hdigits : digits.all Digits.isDecimal = true :=
    List.all_eq_true.mpr fun c hc => isDecimal_of_octal (hoctal c hc)
  have hsign : (sign plus).all Digits.isDecimal = true ↔ plus = false := by
    cases plus <;> decide
  have hmarks : (octalMarks marks).all Digits.isDecimal = true ↔ marks = 0 := by
    cases marks with
    | zero => simp [octalMarks]
    | succ n => simp [octalMarks_succ, Digits.isDecimal]
  rw [htext, List.all_append, List.all_append, Bool.and_eq_true, Bool.and_eq_true, hmarks, hsign,
    and_iff_left hdigits]

theorem OctalForm.exists_isDecimal {marks mode : Nat} {plus : Bool}
    (h : OctalForm text marks plus mode) : ∃ c ∈ text.toList, Digits.isDecimal c = true := by
  obtain ⟨-, digits, hne, hoctal, -, htext⟩ := h
  obtain ⟨c, hc⟩ := List.exists_mem_of_ne_nil digits hne
  exact ⟨c, by simp [htext, hc], isDecimal_of_octal (hoctal c hc)⟩

/-- An octal mode is not in the notation of a listing, which has no
digits. -/
theorem OctalForm.ofSymbolic_eq {marks mode : Nat} {plus : Bool}
    (h : OctalForm text marks plus mode) : ofSymbolic text = .error ⟨text⟩ := by
  cases hread : ofSymbolic text with
  | ok p =>
      obtain ⟨-, rfl⟩ := ofSymbolic_eq_ok.mp hread
      obtain ⟨c, hc, hdigit⟩ := h.exists_isDecimal
      rw [(of_mem_symbolic hc).2] at hdigit
      cases hdigit
  | error fault => rw [literal_of_ofSymbolic hread]

/-! ## Either of them -/

/-- An octal mode that is taken for the notation of a listing: it has nine
bytes, and not all of them are digits. -/
def Mistaken (text : String) : Prop :=
  text.utf8ByteSize = 9
    ∧ ∃ marks plus mode, OctalForm text marks plus mode ∧ (marks ≠ 0 ∨ plus = true)

/-- What decides which notation a text is taken for. -/
theorem parse_eq (htrim : Text.trim text = text) :
    parse text = if text.utf8ByteSize = 9 ∧ text.toList.all Digits.isDecimal = false
      then ofSymbolic text else ofOctal text := by
  simp only [parse, htrim, Bool.and_eq_true, decide_eq_true_eq, Bool.not_eq_true']

theorem parse_of_listing (htrim : Text.trim text = text) (h : ofSymbolic text = .ok p) :
    parse text = .ok p := by
  obtain ⟨-, rfl⟩ := ofSymbolic_eq_ok.mp h
  have hall : p.symbolic.toList.all Digits.isDecimal = false := by
    have hne : p.symbolic.toList ≠ [] := by simp [symbolic, classes, UserClass.chars]
    obtain ⟨c, hc⟩ := List.exists_mem_of_ne_nil _ hne
    exact List.all_eq_false.mpr ⟨c, hc, by simp [(of_mem_symbolic hc).2]⟩
  rw [parse_eq htrim, if_pos ⟨utf8ByteSize_symbolic p, hall⟩, h]

theorem parse_of_mistaken (htrim : Text.trim text = text) (h : Mistaken text) :
    parse text = .error ⟨text⟩ := by
  obtain ⟨hnine, marks, plus, mode, hform, hmore⟩ := h
  have hall : text.toList.all Digits.isDecimal = false := by
    rw [← Bool.not_eq_true, hform.all_isDecimal_iff]
    rintro ⟨rfl, rfl⟩
    exact hmore.elim (fun h => h rfl) fun h => nomatch h
  rw [parse_eq htrim, if_pos ⟨hnine, hall⟩, hform.ofSymbolic_eq]

theorem parse_of_octal (htrim : Text.trim text = text) {marks mode : Nat} {plus : Bool}
    (hform : OctalForm text marks plus mode) (h : ¬ Mistaken text) :
    parse text = ofOctal text := by
  rw [parse_eq htrim, if_neg]
  rintro ⟨hnine, hall⟩
  rw [← Bool.not_eq_true, hform.all_isDecimal_iff] at hall
  refine h ⟨hnine, marks, plus, mode, hform, ?_⟩
  by_cases hmarks : marks = 0
  · exact .inr (Bool.not_eq_false _ ▸ fun hplus => hall ⟨hmarks, hplus⟩)
  · exact .inl hmarks

/-- **Either notation.** No text is a set in both notations. A text without
blanks at its ends is read as a set just if one of them reads it so, unless
it is an octal mode that is taken for the notation of a listing; and such
a mode is refused. -/
theorem parse_agrees_iff {text : String}
    (hfirst : ∀ c, text.toList.head? = some c → Text.isBlank c = false)
    (hlast : ∀ c, text.toList.getLast? = some c → Text.isBlank c = false) :
    (∀ p q, ¬ (ofSymbolic text = .ok p ∧ ofOctal text = .ok q))
      ∧ ((∀ p, parse text = .ok p ↔ ofSymbolic text = .ok p ∨ ofOctal text = .ok p)
        ↔ ¬ Mistaken text)
      ∧ (Mistaken text → (∃ p, ofOctal text = .ok p) ∧ parse text = .error ⟨text⟩) := by
  have htrim : Text.trim text = text := by
    rw [Text.trim, Text.trimChars_eq_self hfirst hlast, String.ofList_toList]
  have hboth : ∀ p q, ¬ (ofSymbolic text = .ok p ∧ ofOctal text = .ok q) := by
    rintro p q ⟨hp, hq⟩
    obtain ⟨marks, plus, hform⟩ := ofOctal_eq_ok.mp hq
    cases hp.symm.trans hform.ofSymbolic_eq
  have hmistaken : Mistaken text → (∃ p, ofOctal text = .ok p) ∧ parse text = .error ⟨text⟩ := by
    intro h
    refine ⟨?_, parse_of_mistaken htrim h⟩
    obtain ⟨-, marks, plus, mode, hform, -⟩ := h
    exact ⟨ofMode (UInt32.ofNat mode), ofOctal_eq_ok.mpr
      ⟨marks, plus, by rwa [toNat_ofMode hform.1]⟩⟩
  refine ⟨hboth, ⟨fun hagrees h => ?_, fun h p => ⟨fun hp => ?_, ?_⟩⟩, hmistaken⟩
  · obtain ⟨⟨p, hp⟩, hrefused⟩ := hmistaken h
    cases hrefused.symm.trans ((hagrees p).mpr (.inr hp))
  · -- The reader is one of the two.
    rw [parse_eq htrim] at hp
    split at hp
    · exact .inl hp
    · exact .inr hp
  · rintro (hp | hp)
    · exact parse_of_listing htrim hp
    · obtain ⟨marks, plus, hform⟩ := ofOctal_eq_ok.mp hp
      rw [parse_of_octal htrim hform h, hp]

/-- A mode of eight bytes with a mark. -/
theorem parse_agrees_iff_eightBytes :
    ¬ Mistaken "0o000644" ∧ ofOctal "0o000644" = .ok ⟨0o644⟩
      ∧ parse "0o000644" = .ok ⟨0o644⟩ := by
  have hfew : ¬ Mistaken "0o000644" := fun h => absurd h.1 (by decide)
  have hoctal : ofOctal "0o000644" = .ok ⟨0o644⟩ := by decide
  obtain ⟨-, hagrees, -⟩ := @parse_agrees_iff "0o000644" (by simp; decide) (by simp; decide)
  exact ⟨hfew, hoctal, (hagrees.mpr hfew ⟨0o644⟩).mpr (.inr hoctal)⟩

/-- With one zero more the mode is refused. -/
theorem parse_disagrees :
    Text.trim "0o0000644" = "0o0000644" ∧ ofOctal "0o0000644" = .ok ⟨0o644⟩
      ∧ parse "0o0000644" = .error ⟨"0o0000644"⟩ :=
  ⟨by decide, by decide, by decide⟩

end Conformance.Permissions
