import Conformance.Json.Printer
import Conformance.Proofs.Text.Digits

/-!
# The characters of JSON text

No text that is written for a value holds a NUL, whatever its strings hold
(`nul_not_mem_text`): inside a string a control character is escaped, and
outside there are only digits, letters and punctuation.
-/

namespace Conformance

/-! ## Numbers -/

theorem Digits.nul_not_mem_toDigits (n : Nat) : '\x00' ∉ Nat.toDigits 10 n := by
  intro h
  have hdecimal := Digits.isDecimal_of_mem_toDigits h
  contradiction

theorem Digits.nul_not_mem_toString (i : Int) : '\x00' ∉ (toString i).toList := by
  rw [Int.toString_eq_repr, Int.repr_eq_if]
  split <;> simp [Nat.toList_repr, Digits.nul_not_mem_toDigits]

namespace Binary64

theorem nul_not_mem_decimal (m : Nat) (q : Int) : '\x00' ∉ (decimal m q).1 := by
  unfold decimal
  split
  · decide
  · exact Digits.nul_not_mem_toDigits _

theorem nul_not_mem_positional {digits : List Char} (h : '\x00' ∉ digits) (k : Int) :
    '\x00' ∉ positional digits k := by
  unfold positional
  dsimp only
  split
  · simp [h]
  · split
    · simp only [List.mem_append, List.mem_cons, not_or]
      exact ⟨fun hmem => h (List.mem_of_mem_take hmem), by decide,
        fun hmem => h (List.mem_of_mem_drop hmem)⟩
    · simp [h]

theorem nul_not_mem_jsonText : ∀ x : Binary64, '\x00' ∉ x.jsonText.toList
  | .infinite true | .infinite false | .nan => by decide
  | .finite s m q => by
      have hdigits := nul_not_mem_decimal m q
      rw [jsonText]
      dsimp only
      rw [String.toList_ofList, List.mem_append, not_or]
      refine ⟨by split <;> decide, ?_⟩
      split
      · decide
      · split
        · simpa using nul_not_mem_positional hdigits _
        · split
          · exact nul_not_mem_positional hdigits _
          · -- The first digit, the other ones and the exponent.
            simp only [List.mem_append, List.mem_cons, not_or]
            refine ⟨⟨fun hmem => hdigits (List.mem_of_mem_take hmem), ?_⟩, by decide,
              Digits.nul_not_mem_toString _⟩
            split
            · simp
            · simpa using fun hmem => hdigits (List.mem_of_mem_tail hmem)

end Binary64

namespace Json

theorem nul_not_mem_numberText : ∀ n : Number, '\x00' ∉ numberText n
  | .int i => Digits.nul_not_mem_toString i
  | .float x => x.nul_not_mem_jsonText

/-! ## Strings -/

theorem nul_not_mem_controlDigits : ∀ n < 0x20, '\x00' ∉ controlDigits n := by
  decide

theorem nul_not_mem_escaped (c : Char) : '\x00' ∉ escaped c := by
  unfold escaped
  -- The characters with an escape of their own.
  iterate 7 (split; · decide)
  split
  · rename_i hcontrol
    simpa using nul_not_mem_controlDigits c.toNat hcontrol
  · rename_i hcontrol
    rw [List.mem_singleton]
    rintro rfl
    exact hcontrol (by decide)

theorem nul_not_mem_quoted (s : String) : '\x00' ∉ quoted s := by
  simp [quoted, nul_not_mem_escaped]

/-! ## Values -/

mutual

theorem nul_not_mem_chars : ∀ v : Json, '\x00' ∉ chars v
  | .null | .bool true | .bool false | .arr [] | .obj [] => by simp [chars]
  | .num n => nul_not_mem_numberText n
  | .str s => nul_not_mem_quoted s
  | .arr (v :: r) => by simp [chars, nul_not_mem_chars v, nul_not_mem_elementChars r]
  | .obj ((k, v) :: r) => by
      simp [chars, nul_not_mem_quoted k, nul_not_mem_chars v, nul_not_mem_memberChars r]

theorem nul_not_mem_elementChars : ∀ vs : List Json, '\x00' ∉ elementChars vs
  | [] => by simp [elementChars]
  | v :: r => by simp [elementChars, nul_not_mem_chars v, nul_not_mem_elementChars r]

theorem nul_not_mem_memberChars : ∀ ms : List (String × Json), '\x00' ∉ memberChars ms
  | [] => by simp [memberChars]
  | (k, v) :: r => by
      simp [memberChars, nul_not_mem_quoted k, nul_not_mem_chars v, nul_not_mem_memberChars r]

end

/-- **No text holds a NUL.** So every text can be handed over where a NUL
would end it. -/
theorem nul_not_mem_text (v : Json) : '\x00' ∉ (text v).toList := by
  rw [text, String.toList_ofList]
  exact nul_not_mem_chars v

end Json

end Conformance
